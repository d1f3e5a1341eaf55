import LabelTemplate.Proofs.Outcome
import LabelTemplate.Proofs.XPath.Order
import LabelTemplate.Template.Sources

/-!
# What loading sources does

There is one lemma for each function that loads, and what holds of everything
that was loaded is derived from these.  `load_eq_ok` says what one input adds,
`loadAll_cons_eq_ok` goes on to the next one, `ofMembers_eq_ok` says which keys
make a group, `bindSpec_eq_ok` what a moniker is bound to, and `build_eq_ok_iff`
what the end of a build adds.
-/

namespace LabelTemplate

open Xml XPath

/-- What an input of a run is read as. -/
def SourceInput.Gives (fs : Files) : SourceInput → Document → Prop
  | .path p, d => Document.ofFile fs p = .ok d
  | .document given, d => d = given

/-! ## Inputs -/

namespace Loaded

variable {fs : Files} {l l' : Loaded}

/-- A document is added under the next key, and so is a path with its document,
unless it has a key already. -/
theorem load_eq_ok {i : SourceInput} {key : DocKey} (h : l.load fs i = .ok (key, l')) :
    (∃ d, i = .document d ∧ key = l.docs.size ∧
      l' = { docs := l.docs.push d, paths := l.paths }) ∨
    (∃ p, i = .path p ∧ l.paths.lookup (PathKey.of p) = some key ∧ l' = l) ∨
    ∃ p d, i = .path p ∧ l.paths.lookup (PathKey.of p) = none ∧ Document.ofFile fs p = .ok d ∧
      key = l.docs.size ∧
      l' = { docs := l.docs.push d, paths := (PathKey.of p, l.docs.size) :: l.paths } := by
  cases i with
  | document d =>
    cases h
    exact .inl ⟨d, rfl, rfl, rfl⟩
  | path p =>
    unfold load at h
    simp only at h
    split at h
    · rename_i hlookup
      cases h
      exact .inr (.inl ⟨p, rfl, hlookup, rfl⟩)
    · rename_i hlookup
      obtain ⟨d, hd, h⟩ := Outcome.bind_eq_ok.1 h
      cases h
      exact .inr (.inr ⟨p, d, rfl, hlookup, hd, rfl, rfl⟩)

theorem loadAll_cons_eq_ok {i : SourceInput} {inputs : List SourceInput} {keys : List DocKey} :
    l.loadAll fs (i :: inputs) = .ok (keys, l') ↔
      ∃ key l₁ keys', l.load fs i = .ok (key, l₁) ∧ l₁.loadAll fs inputs = .ok (keys', l') ∧
        keys = key :: keys' := by
  rw [loadAll, Outcome.bind_eq_ok]
  constructor
  · rintro ⟨⟨key, l₁⟩, h₁, h⟩
    obtain ⟨⟨keys', l₂⟩, h₂, h⟩ := Outcome.bind_eq_ok.1 h
    cases h
    exact ⟨key, l₁, keys', h₁, h₂, rfl⟩
  · rintro ⟨key, l₁, keys', h₁, h₂, rfl⟩
    exact ⟨(key, l₁), h₁, Outcome.bind_eq_ok.2 ⟨(keys', l'), h₂, rfl⟩⟩

end Loaded

/-! ## Groups -/

theorem length_eraseDups_le (keys : List DocKey) : keys.eraseDups.length ≤ keys.length := by
  induction hk : keys.length using Nat.strong_induction_on generalizing keys with
  | _ k ih =>
    cases keys with
    | nil => exact Nat.zero_le _
    | cons key keys =>
      have hfilter : (keys.filter fun other => !other == key).length ≤ keys.length :=
        List.length_filter_le _ _
      have hrest := ih _ (by rw [← hk, List.length_cons]; omega)
        (keys.filter fun other => !other == key) rfl
      rw [List.eraseDups_cons, List.length_cons, ← hk, List.length_cons]
      omega

/-- Where leaving out repetitions leaves nothing out there are none. -/
theorem nodup_of_length_eraseDups {keys : List DocKey}
    (h : keys.eraseDups.length = keys.length) : keys.Nodup := by
  induction keys with
  | nil => exact .nil
  | cons key keys ih =>
    rw [List.eraseDups_cons, List.length_cons, List.length_cons] at h
    have hle := length_eraseDups_le (keys.filter fun other => !other == key)
    have hfilter : (keys.filter fun other => !other == key).length ≤ keys.length :=
      List.length_filter_le _ _
    have hall : keys.filter (fun other => !other == key) = keys :=
      List.filter_sublist.eq_of_length (by omega)
    rw [hall] at h
    refine List.nodup_cons.2 ⟨fun hkey => ?_, ih (by omega)⟩
    rw [← hall] at hkey
    simp at hkey

namespace SourceGroup

/-- The group of a list of documents. -/
def ofKeys (keys : List DocKey) : SourceGroup := { primary := keys.head?, secondary := keys.tail }

@[simp] theorem members_ofKeys (keys : List DocKey) : (ofKeys keys).members = keys := by
  cases keys <;> rfl

theorem ofMembers_eq_ok {keys : List DocKey} {g : SourceGroup} :
    ofMembers keys = .ok g ↔ (keys ≠ [] ∧ keys.Nodup) ∧ g = ofKeys keys := by
  cases keys with
  | nil => simp [ofMembers]
  | cons key keys =>
    have hnodup : (key :: keys).eraseDups.length = (key :: keys).length ↔ (key :: keys).Nodup :=
      ⟨nodup_of_length_eraseDups, fun h => by rw [eraseDups_eq_self h]⟩
    simp only [ofMembers, hnodup]
    split
    · rename_i h
      simp [h, ofKeys, eq_comm]
    · rename_i h
      simp [h]

end SourceGroup

/-! ## Monikers -/

namespace SourceMap

theorem group?_bind (m : SourceMap) (bound moniker : String) (g : SourceGroup) :
    (m.bind bound g).group? moniker = if moniker = bound then some g else m.group? moniker := by
  unfold bind group?
  rw [List.lookup_cons]
  by_cases heq : moniker = bound
  · simp [heq]
  · simp only [beq_eq_false_iff_ne.2 heq, if_neg heq]
    induction m with
    | nil => rfl
    | cons entry m ih =>
      obtain ⟨known, g'⟩ := entry
      rw [List.lookup_cons, List.filter_cons]
      by_cases hknown : known = bound
      · have hne : moniker ≠ known := hknown ▸ heq
        simpa [hknown, beq_eq_false_iff_ne.2 heq] using ih
      · simp only [bne_iff_ne.2 hknown, if_true, List.lookup_cons, ih]

end SourceMap

/-- A moniker is bound to what its inputs are loaded as, if there are any and no
two of them are the same document. -/
theorem Loaded.bindSpec_eq_ok {fs : Files} {m m' : SourceMap} {l l' : Loaded}
    {spec : SourceSpec} :
    Loaded.bindSpec fs (m, l) spec = .ok (m', l') ↔
      ∃ keys, l.loadAll fs spec.inputs = .ok (keys, l') ∧ (keys ≠ [] ∧ keys.Nodup) ∧
        m' = m.bind spec.moniker (.ofKeys keys) := by
  rw [bindSpec, Outcome.bind_eq_ok]
  constructor
  · rintro ⟨⟨keys, l₁⟩, hload, h⟩
    obtain ⟨g, hg, h⟩ := Outcome.bind_eq_ok.1 h
    obtain ⟨hkeys, rfl⟩ := SourceGroup.ofMembers_eq_ok.1 (Outcome.mapError_eq_ok.1 hg)
    cases h
    exact ⟨keys, hload, hkeys, rfl⟩
  · rintro ⟨keys, hload, hkeys, rfl⟩
    have hg : SourceGroup.ofMembers keys = .ok (.ofKeys keys) :=
      SourceGroup.ofMembers_eq_ok.2 ⟨hkeys, rfl⟩
    exact ⟨(keys, l'), hload, Outcome.bind_eq_ok.2 ⟨_, Outcome.mapError_eq_ok.2 hg, rfl⟩⟩

/-- A build is a run over the monikers with the template bound at its end. -/
theorem SourceMap.build_eq_ok_iff {fs : Files} {template : Document} {specs : List SourceSpec}
    {includeTemplate : Bool} {sources : SourceMap} {docs : Documents} :
    build fs template specs includeTemplate = .ok (sources, docs) ↔
      ∃ m l, specs.foldlM (Loaded.bindSpec fs) ([], { docs := #[template] }) = .ok (m, l) ∧
        docs = l.docs ∧
        if includeTemplate = true then
          m.group? templateMoniker = none ∧ sources = m.bind templateMoniker (.single templateKey)
        else sources = m := by
  unfold build
  rw [Outcome.bind_eq_ok]
  constructor
  · rintro ⟨⟨m, l⟩, hrun, h⟩
    refine ⟨m, l, hrun, ?_⟩
    cases includeTemplate with
    | false =>
      cases h
      exact ⟨rfl, rfl⟩
    | true =>
      simp only [if_true] at h ⊢
      cases hfree : m.group? templateMoniker with
      | some g =>
        rw [hfree] at h
        cases h
      | none =>
        rw [hfree] at h
        cases h
        exact ⟨rfl, rfl, rfl⟩
  · rintro ⟨m, l, hrun, rfl, h⟩
    refine ⟨(m, l), hrun, ?_⟩
    cases includeTemplate with
    | false =>
      cases h
      rfl
    | true =>
      obtain ⟨hfree, rfl⟩ := h
      simp only [if_true, hfree]
      rfl

end LabelTemplate
