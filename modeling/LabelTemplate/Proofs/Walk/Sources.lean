import LabelTemplate.Proofs.Files.Places
import LabelTemplate.Proofs.Walk.Build

/-!
# Which documents the monikers stand for

Loading threads a table of paths through the inputs of all monikers.
`Loaded.Records` says what that table and the documents amount to for the list
of everything that has been loaded, each input with the key that it was given:
every key holds the document of its input, and two inputs have one key exactly
where they are the same path.  Loading one more input keeps it (`Records.load`),
so it holds of a whole run (`Records.foldlM`).

`build_assigns` reads off what a successful build binds, and when a build fails
although all files can be read.
-/

namespace LabelTemplate

open Xml XPath

/-! ## Inputs -/

namespace SourceInput

/-- Both inputs are paths, and of the same components.  A document given as
such is the same path as nothing, itself included. -/
def SamePath : SourceInput → SourceInput → Prop
  | .path p, .path q => PathKey.of p = PathKey.of q
  | _, _ => False

theorem samePath_iff {i j : SourceInput} :
    i.SamePath j ↔ ∃ p q, i = .path p ∧ j = .path q ∧ PathKey.of p = PathKey.of q := by
  cases i <;> cases j <;> simp [SamePath]

theorem SamePath.symm {i j : SourceInput} (h : i.SamePath j) : j.SamePath i := by
  obtain ⟨p, q, rfl, rfl, hkey⟩ := samePath_iff.1 h
  exact hkey.symm

theorem SamePath.trans {i j k : SourceInput} (h : i.SamePath j) (h' : j.SamePath k) :
    i.SamePath k := by
  obtain ⟨p, q, rfl, rfl, hkey⟩ := samePath_iff.1 h
  obtain ⟨_, r, ⟨⟩, rfl, hkey'⟩ := samePath_iff.1 h'
  exact hkey.trans hkey'

/-- `d` is what is loaded for an input: what is read at it or, for a path that
was met before in another spelling, at that one.  Where the input can be read
by itself, the document is the same but for the path that it remembers. -/
def IsHeldAs (fs : Files) (i : SourceInput) (d : Document) : Prop :=
  (∃ j : SourceInput, (j = i ∨ j.SamePath i) ∧ j.Gives fs d) ∧
    ∀ d', i.Gives fs d' → d' = { d with url := d'.url }

end SourceInput

/-- Two spellings of a path read the same document. -/
theorem Xml.Document.ofFile_eq_of_key {fs : Files} {p q : String} {d d' : Document}
    (hkey : PathKey.of p = PathKey.of q) (h : Document.ofFile fs p = .ok d)
    (h' : Document.ofFile fs q = .ok d') : d' = { d with url := d'.url } := by
  obtain ⟨text, htext, h⟩ := Outcome.bind_eq_ok.1 h
  obtain ⟨text', htext', h'⟩ := Outcome.bind_eq_ok.1 h'
  obtain ⟨bytes, hbytes, hutf8⟩ := Files.readText_eq_ok (Outcome.mapError_eq_ok.1 htext)
  obtain ⟨bytes', hbytes', hutf8'⟩ := Files.readText_eq_ok (Outcome.mapError_eq_ok.1 htext')
  rw [← Files.placeOf_eq_of_key hkey, hbytes] at hbytes'
  cases hbytes'
  rw [hutf8] at hutf8'
  cases hutf8'
  obtain ⟨d₀, hd₀, h⟩ := Outcome.bind_eq_ok.1 h
  obtain ⟨d₁, hd₁, h'⟩ := Outcome.bind_eq_ok.1 h'
  rw [hd₀] at hd₁
  cases hd₁
  cases h
  cases h'
  rfl

namespace SourceInput

variable {fs : Files} {i j : SourceInput} {d : Document}

theorem isHeldAs_of_gives (h : i.Gives fs d) : i.IsHeldAs fs d := by
  refine ⟨⟨i, .inl rfl, h⟩, fun d' h' => ?_⟩
  cases i with
  | path p => exact Document.ofFile_eq_of_key rfl h h'
  | document given =>
    cases h
    cases h'
    rfl

/-- What is held for one spelling of a path is held for all. -/
theorem IsHeldAs.of_samePath (h : i.IsHeldAs fs d) (hsame : i.SamePath j) : j.IsHeldAs fs d := by
  obtain ⟨⟨k, hk, hgives⟩, -⟩ := h
  have hkj : k.SamePath j := by
    rcases hk with rfl | hk
    · exact hsame
    · exact hk.trans hsame
  refine ⟨⟨k, .inr hkj, hgives⟩, fun d' hgives' => ?_⟩
  obtain ⟨p, q, rfl, rfl, hkey⟩ := samePath_iff.1 hkj
  exact Document.ofFile_eq_of_key hkey hgives hgives'

end SourceInput

namespace SourceSpec

/-- Two of the inputs are the same path. -/
def RepeatsPath (spec : SourceSpec) : Prop :=
  ∃ i j : SourceInput, [i, j].Sublist spec.inputs ∧ i.SamePath j

end SourceSpec

/-! ## What is loaded -/

namespace Loaded

/-- The keys of two inputs that were loaded agree with the inputs. -/
def Agree (x y : SourceInput × DocKey) : Prop := x.2 = y.2 ↔ x.1.SamePath y.1

instance : Std.Symm Agree :=
  ⟨fun _ _ h => ⟨fun heq => (h.1 heq.symm).symm, fun heq => (h.2 heq.symm).symm⟩⟩

/-- What was loaded beside a template, each input with its key. -/
structure Records (fs : Files) (l : Loaded) (done : List (SourceInput × DocKey)) : Prop where
  template : 0 < l.docs.size
  held : ∀ x ∈ done, 1 ≤ x.2 ∧ ∃ d, l.docs[x.2]? = some d ∧ x.1.IsHeldAs fs d
  /-- The table knows the paths among the inputs and no others. -/
  known : ∀ k key, l.paths.lookup k = some key ↔
    ∃ p, k = PathKey.of p ∧ (SourceInput.path p, key) ∈ done
  agree : done.Pairwise Agree

section Steps

variable {fs : Files} {l l' : Loaded} {done : List (SourceInput × DocKey)}

theorem Records.lt_size (h : l.Records fs done) {x : SourceInput × DocKey} (hx : x ∈ done) :
    x.2 < l.docs.size := by
  obtain ⟨-, d, hd, -⟩ := h.held x hx
  obtain ⟨hlt, -⟩ := Array.getElem?_eq_some_iff.1 hd
  exact hlt

/-- A document that is added is under a key of its own, as long as its input is
no path that was met before. -/
theorem Records.add (h : l.Records fs done) {i : SourceInput} {d : Document}
    {paths : List (PathKey × DocKey)} (hd : i.Gives fs d)
    (hnew : ∀ x ∈ done, ¬ x.1.SamePath i)
    (hknown : ∀ k key, paths.lookup k = some key ↔
      ∃ p, k = PathKey.of p ∧ (SourceInput.path p, key) ∈ done ++ [(i, l.docs.size)]) :
    ({ docs := l.docs.push d, paths } : Loaded).Records fs (done ++ [(i, l.docs.size)]) where
  template := by
    rw [Array.size_push]
    exact Nat.zero_lt_succ _
  held x hx := by
    rcases List.mem_append.1 hx with hx | hx
    · obtain ⟨hpos, d', hd', hheld⟩ := h.held x hx
      refine ⟨hpos, d', ?_, hheld⟩
      rw [Array.getElem?_push_lt (h.lt_size hx), ← Array.getElem?_eq_getElem (h.lt_size hx)]
      exact hd'
    · cases List.mem_singleton.1 hx
      exact ⟨h.template, d, Array.getElem?_push_size, SourceInput.isHeldAs_of_gives hd⟩
  known := hknown
  agree := by
    refine List.pairwise_append.2 ⟨h.agree, List.pairwise_singleton _ _, fun x hx y hy => ?_⟩
    cases List.mem_singleton.1 hy
    exact iff_of_false (Nat.ne_of_lt (h.lt_size hx)) (hnew x hx)

/-- A path that was met before shares the key that it was given then. -/
theorem Records.again (h : l.Records fs done) {p q : String} {key : DocKey}
    (hq : (SourceInput.path q, key) ∈ done) (hkey : PathKey.of q = PathKey.of p) :
    l.Records fs (done ++ [(.path p, key)]) where
  template := h.template
  held x hx := by
    rcases List.mem_append.1 hx with hx | hx
    · exact h.held x hx
    · cases List.mem_singleton.1 hx
      obtain ⟨hpos, d, hd, hheld⟩ := h.held _ hq
      exact ⟨hpos, d, hd, hheld.of_samePath hkey⟩
  known k key' := by
    rw [h.known]
    constructor
    · rintro ⟨p', rfl, hp'⟩
      exact ⟨p', rfl, List.mem_append_left _ hp'⟩
    · rintro ⟨p', rfl, hp'⟩
      rcases List.mem_append.1 hp' with hp' | hp'
      · exact ⟨p', rfl, hp'⟩
      · cases List.mem_singleton.1 hp'
        exact ⟨q, hkey.symm, hq⟩
  agree := by
    have hsame : (SourceInput.path q).SamePath (.path p) := hkey
    refine List.pairwise_append.2 ⟨h.agree, List.pairwise_singleton _ _, fun x hx y hy => ?_⟩
    cases List.mem_singleton.1 hy
    -- `Agree` says nothing of an entry and itself, so the first spelling stands apart.
    by_cases hfirst : x = (.path q, key)
    · cases hfirst
      exact iff_of_true rfl hsame
    · exact (h.agree.forall hx hq hfirst).trans ⟨(·.trans hsame), (·.trans hsame.symm)⟩

/-- The table with one path more. -/
theorem Records.known_cons (h : l.Records fs done) {p : String}
    (hnew : l.paths.lookup (PathKey.of p) = none) (key : DocKey) (k : PathKey) (key' : DocKey) :
    ((PathKey.of p, key) :: l.paths).lookup k = some key' ↔
      ∃ q, k = PathKey.of q ∧ (SourceInput.path q, key') ∈ done ++ [(.path p, key)] := by
  rw [List.lookup_cons]
  by_cases hk : k = PathKey.of p
  · rw [hk, beq_self_eq_true]
    constructor
    · rintro ⟨⟩
      exact ⟨p, rfl, List.mem_append_right _ (List.mem_singleton_self _)⟩
    · rintro ⟨q, hq, hmem⟩
      rcases List.mem_append.1 hmem with hmem | hmem
      · rw [(h.known _ _).2 ⟨q, hq, hmem⟩] at hnew
        cases hnew
      · cases List.mem_singleton.1 hmem
        rfl
  · rw [beq_eq_false_iff_ne.2 hk]
    refine (h.known k key').trans ⟨?_, ?_⟩
    · rintro ⟨q, hq, hmem⟩
      exact ⟨q, hq, List.mem_append_left _ hmem⟩
    · rintro ⟨q, hq, hmem⟩
      rcases List.mem_append.1 hmem with hmem | hmem
      · exact ⟨q, hq, hmem⟩
      · cases List.mem_singleton.1 hmem
        exact absurd hq hk

/-- One more input either gets the next key, or it is a path that has one. -/
theorem Records.load (h : l.Records fs done) {i : SourceInput} {key : DocKey}
    (hok : l.load fs i = .ok (key, l')) : l'.Records fs (done ++ [(i, key)]) := by
  obtain ⟨d, rfl, rfl, rfl⟩ | ⟨p, rfl, hlookup, rfl⟩ | ⟨p, d, rfl, hlookup, hd, rfl, rfl⟩ :=
    load_eq_ok hok
  · refine h.add (i := .document d) rfl (fun x _ hsame => ?_) fun k key => ?_
    · obtain ⟨_, _, _, ⟨⟩, _⟩ := SourceInput.samePath_iff.1 hsame
    · simpa using h.known k key
  · obtain ⟨q, hkey, hq⟩ := (h.known _ _).1 hlookup
    exact h.again hq hkey.symm
  · refine h.add (i := .path p) hd (fun x hx hsame => ?_) (h.known_cons hlookup l.docs.size)
    obtain ⟨j, key⟩ := x
    obtain ⟨q, _, rfl, ⟨⟩, hkey⟩ := SourceInput.samePath_iff.1 hsame
    rw [(h.known _ key).2 ⟨q, hkey.symm, hx⟩] at hlookup
    cases hlookup

theorem Records.loadAll (h : l.Records fs done) {inputs : List SourceInput} {keys : List DocKey}
    (hok : l.loadAll fs inputs = .ok (keys, l')) :
    keys.length = inputs.length ∧ l'.Records fs (done ++ inputs.zip keys) := by
  induction inputs generalizing l done keys with
  | nil =>
    cases hok
    exact ⟨rfl, by simpa using h⟩
  | cons i inputs ih =>
    obtain ⟨key, l₁, keys', h₁, h₂, rfl⟩ := loadAll_cons_eq_ok.1 hok
    obtain ⟨hlength, hrecords⟩ := ih (h.load h₁) h₂
    refine ⟨congrArg (· + 1) hlength, ?_⟩
    rw [List.zip_cons_cons]
    simpa using hrecords

/-- Every input can be loaded if its file can be read. -/
theorem exists_load (l : Loaded) {i : SourceInput} (hi : ∃ d, i.Gives fs d) :
    ∃ key l', l.load fs i = .ok (key, l') := by
  obtain ⟨d, hd⟩ := hi
  cases i with
  | document given => exact ⟨_, _, rfl⟩
  | path p =>
    unfold Loaded.load
    simp only
    split
    · exact ⟨_, _, rfl⟩
    · exact ⟨_, _, Outcome.bind_eq_ok.2 ⟨d, hd, rfl⟩⟩

theorem exists_loadAll (l : Loaded) {inputs : List SourceInput}
    (hinputs : ∀ i ∈ inputs, ∃ d, i.Gives fs d) :
    ∃ keys l', l.loadAll fs inputs = .ok (keys, l') := by
  induction inputs generalizing l with
  | nil => exact ⟨_, _, rfl⟩
  | cons i inputs ih =>
    obtain ⟨key, l₁, h₁⟩ := exists_load l (hinputs i List.mem_cons_self)
    obtain ⟨keys, l₂, h₂⟩ := ih l₁ fun j hj => hinputs j (List.mem_cons_of_mem _ hj)
    exact ⟨_, _, loadAll_cons_eq_ok.2 ⟨key, l₁, keys, h₁, h₂, rfl⟩⟩

/-! ## One moniker -/

/-- Keys are distinct where no path is repeated. -/
theorem nodup_iff_not_repeatsPath {spec : SourceSpec} {keys : List DocKey}
    (hlength : keys.length = spec.inputs.length)
    (hagree : (spec.inputs.zip keys).Pairwise Agree) : keys.Nodup ↔ ¬ spec.RepeatsPath := by
  have hkeys : keys.Nodup ↔ (spec.inputs.zip keys).Pairwise fun x y => x.2 ≠ y.2 := by
    rw [← List.pairwise_map (f := Prod.snd) (R := (· ≠ ·)),
      List.map_snd_zip (Nat.le_of_eq hlength)]
    exact Iff.rfl
  have hrepeats : ¬ spec.RepeatsPath ↔ spec.inputs.Pairwise fun i j => ¬ i.SamePath j := by
    rw [List.pairwise_iff_forall_sublist]
    exact ⟨fun h i j hij hsame => h ⟨i, j, hij, hsame⟩, fun h ⟨i, j, hij, hsame⟩ => h hij hsame⟩
  have hinputs : (spec.inputs.Pairwise fun i j => ¬ i.SamePath j) ↔
      (spec.inputs.zip keys).Pairwise fun x y => ¬ x.1.SamePath y.1 := by
    rw [← List.pairwise_map (f := Prod.fst) (R := fun i j : SourceInput => ¬ i.SamePath j),
      List.map_fst_zip (Nat.le_of_eq hlength.symm)]
  rw [hkeys, hrepeats, hinputs]
  constructor
  · intro h
    exact (hagree.and h).imp fun ⟨hxy, hne⟩ hsame => hne (hxy.2 hsame)
  · intro h
    exact (hagree.and h).imp fun ⟨hxy, hne⟩ hsame => hne (hxy.1 hsame)

/-- What a step over one moniker does. -/
theorem Records.bindSpec (h : l.Records fs done) {m m' : SourceMap} {spec : SourceSpec}
    (hok : Loaded.bindSpec fs (m, l) spec = .ok (m', l')) :
    ∃ keys, keys.length = spec.inputs.length ∧ keys.Nodup ∧
      l'.Records fs (done ++ spec.inputs.zip keys) ∧
      m' = m.bind spec.moniker (.ofKeys keys) ∧ spec.inputs ≠ [] ∧ ¬ spec.RepeatsPath := by
  obtain ⟨keys, hload, ⟨hne, hnodup⟩, rfl⟩ := bindSpec_eq_ok.1 hok
  obtain ⟨hlength, hrecords⟩ := h.loadAll hload
  refine ⟨keys, hlength, hnodup, hrecords, rfl, ?_, ?_⟩
  · intro hempty
    rw [hempty] at hlength
    exact hne (List.length_eq_zero_iff.1 hlength)
  · exact (nodup_iff_not_repeatsPath hlength (List.pairwise_append.1 hrecords.agree).2.1).1 hnodup

theorem Records.exists_bindSpec (h : l.Records fs done) (m : SourceMap) {spec : SourceSpec}
    (hinputs : ∀ i ∈ spec.inputs, ∃ d, i.Gives fs d) (hne : spec.inputs ≠ [])
    (hrepeats : ¬ spec.RepeatsPath) : ∃ s, Loaded.bindSpec fs (m, l) spec = .ok s := by
  obtain ⟨keys, l₁, hload⟩ := exists_loadAll l hinputs
  obtain ⟨hlength, hrecords⟩ := h.loadAll hload
  have hnodup := (nodup_iff_not_repeatsPath hlength
    (List.pairwise_append.1 hrecords.agree).2.1).2 hrepeats
  have hkeys : keys ≠ [] := by
    rintro rfl
    exact hne (List.length_eq_zero_iff.1 hlength.symm)
  exact ⟨(_, l₁), bindSpec_eq_ok.2 ⟨keys, hload, ⟨hkeys, hnodup⟩, rfl⟩⟩

end Steps

end Loaded

/-! ## All monikers -/

/-- All inputs of a list of specs, each with its key. -/
def inputKeys (specs : List SourceSpec) (keys : List (List DocKey)) :
    List (SourceInput × DocKey) :=
  (specs.zip keys).flatMap fun x => x.1.inputs.zip x.2

/-- The keys of the last spec that is given for a moniker. -/
def lastKeys? (moniker : String) (specs : List SourceSpec) (keys : List (List DocKey)) :
    Option (List DocKey) :=
  ((specs.zip keys).reverse.find? (·.1.moniker = moniker)).map (·.2)

theorem lastKeys?_cons (moniker : String) (spec : SourceSpec) (specs : List SourceSpec)
    (ks : List DocKey) (keys : List (List DocKey)) :
    lastKeys? moniker (spec :: specs) (ks :: keys) =
      (lastKeys? moniker specs keys).or (if spec.moniker = moniker then some ks else none) := by
  unfold lastKeys?
  rw [List.zip_cons_cons, List.reverse_cons, List.find?_append]
  cases (specs.zip keys).reverse.find? (·.1.moniker = moniker) with
  | some x => rfl
  | none =>
    by_cases hmoniker : spec.moniker = moniker
    · simp [hmoniker]
    · simp [hmoniker]

/-- A moniker has keys where a spec is given for it. -/
theorem lastKeys?_eq_none_iff {r : SourceSpec → List DocKey → Prop} {specs : List SourceSpec}
    {keys : List (List DocKey)} (h : List.Forall₂ r specs keys) {moniker : String} :
    lastKeys? moniker specs keys = none ↔ ∀ spec ∈ specs, spec.moniker ≠ moniker := by
  induction h with
  | nil => simp [lastKeys?]
  | @cons spec ks specs keys _ _ ih =>
    rw [lastKeys?_cons, Option.or_eq_none_iff, ih, List.forall_mem_cons, and_comm]
    refine and_congr_left fun _ => ?_
    by_cases hmoniker : spec.moniker = moniker <;> simp [hmoniker]

/-- The keys of a spec are the last ones if none of the later specs has its
moniker. -/
theorem lastKeys?_of_last {r : SourceSpec → List DocKey → Prop} {before after : List SourceSpec}
    {spec : SourceSpec} {keys : List (List DocKey)}
    (h : List.Forall₂ r (before ++ spec :: after) keys)
    (hlast : ∀ later ∈ after, later.moniker ≠ spec.moniker) :
    ∃ ks, keys[before.length]? = some ks ∧
      lastKeys? spec.moniker (before ++ spec :: after) keys = some ks := by
  induction before generalizing keys with
  | nil =>
    obtain ⟨ks, keys, -, hafter, rfl⟩ := List.forall₂_cons_left_iff.1 h
    refine ⟨ks, rfl, ?_⟩
    rw [List.nil_append, lastKeys?_cons, (lastKeys?_eq_none_iff hafter).2 hlast]
    simp
  | cons earlier before ih =>
    obtain ⟨ks', keys, -, hrest, rfl⟩ := List.forall₂_cons_left_iff.1 h
    obtain ⟨ks, hks, hlookup⟩ := ih hrest
    refine ⟨ks, by simpa using hks, ?_⟩
    rw [List.cons_append, lastKeys?_cons, hlookup]
    rfl

/-- Keys that a moniker has are keys of inputs. -/
theorem mem_inputKeys_of_lastKeys? {r : SourceSpec → List DocKey → Prop} {specs : List SourceSpec}
    {keys : List (List DocKey)} (h : List.Forall₂ r specs keys)
    (hr : ∀ spec ks, r spec ks → ks.length = spec.inputs.length) {moniker : String}
    {ks : List DocKey} (hks : lastKeys? moniker specs keys = some ks) {key : DocKey}
    (hkey : key ∈ ks) : ∃ i, (i, key) ∈ inputKeys specs keys := by
  obtain ⟨⟨spec, ks⟩, hfind, rfl⟩ := Option.map_eq_some_iff.1 hks
  have hzip : (spec, ks) ∈ specs.zip keys := List.mem_reverse.1 (List.mem_of_find?_eq_some hfind)
  have hlength := hr spec ks ((List.forall₂_iff_zip.1 h).2 hzip)
  rw [← List.map_snd_zip (Nat.le_of_eq hlength)] at hkey
  obtain ⟨⟨i, _⟩, hi, rfl⟩ := List.mem_map.1 hkey
  exact ⟨i, List.mem_flatMap.2 ⟨_, hzip, hi⟩⟩

namespace Loaded

variable {fs : Files} {l l' : Loaded} {done : List (SourceInput × DocKey)} {m m' : SourceMap}

/-- What a run over all monikers does. -/
theorem Records.foldlM (h : l.Records fs done) {specs : List SourceSpec}
    (hok : specs.foldlM (Loaded.bindSpec fs) (m, l) = .ok (m', l')) :
    ∃ keys, List.Forall₂ (fun spec ks => ks.length = spec.inputs.length ∧ ks.Nodup) specs keys ∧
      l'.Records fs (done ++ inputKeys specs keys) ∧
      (∀ moniker, m'.group? moniker =
        ((lastKeys? moniker specs keys).map .ofKeys).or (m.group? moniker)) ∧
      ∀ spec ∈ specs, spec.inputs ≠ [] ∧ ¬ spec.RepeatsPath := by
  induction specs generalizing m l done with
  | nil =>
    cases hok
    exact ⟨[], .nil, by simpa [inputKeys] using h, fun _ => rfl, by simp⟩
  | cons spec specs ih =>
    rw [List.foldlM_cons] at hok
    obtain ⟨⟨m₁, l₁⟩, h₁, hok⟩ := Outcome.bind_eq_ok.1 hok
    obtain ⟨ks, hlength, hnodup, hrecords, rfl, hspec⟩ := h.bindSpec h₁
    obtain ⟨keys, hkeys, hrecords, hgroups, hspecs⟩ := ih hrecords hok
    refine ⟨ks :: keys, .cons ⟨hlength, hnodup⟩ hkeys, ?_, fun moniker => ?_,
      List.forall_mem_cons.2 ⟨hspec, hspecs⟩⟩
    · rw [inputKeys, List.zip_cons_cons, List.flatMap_cons, ← List.append_assoc]
      exact hrecords
    · rw [hgroups, lastKeys?_cons, SourceMap.group?_bind]
      cases lastKeys? moniker specs keys with
      | some _ => rfl
      | none =>
        by_cases hmoniker : spec.moniker = moniker
        · simp [hmoniker]
        · simp [hmoniker, Ne.symm hmoniker]

/-- A run over monikers of which each can be bound. -/
theorem Records.exists_foldlM (h : l.Records fs done) (m : SourceMap) {specs : List SourceSpec}
    (hinputs : ∀ spec ∈ specs, ∀ i ∈ spec.inputs, ∃ d, i.Gives fs d)
    (hspecs : ∀ spec ∈ specs, spec.inputs ≠ [] ∧ ¬ spec.RepeatsPath) :
    ∃ s, specs.foldlM (Loaded.bindSpec fs) (m, l) = .ok s := by
  induction specs generalizing m l done with
  | nil => exact ⟨_, rfl⟩
  | cons spec specs ih =>
    obtain ⟨hfirst, hinputs⟩ := List.forall_mem_cons.1 hinputs
    obtain ⟨⟨hne, hrepeats⟩, hspecs⟩ := List.forall_mem_cons.1 hspecs
    obtain ⟨⟨m₁, l₁⟩, h₁⟩ := h.exists_bindSpec m hfirst hne hrepeats
    obtain ⟨ks, -, -, hrecords, -⟩ := h.bindSpec h₁
    obtain ⟨s, hs⟩ := ih hrecords m₁ hinputs hspecs
    exact ⟨s, by rw [List.foldlM_cons]; exact Outcome.bind_eq_ok.2 ⟨_, h₁, hs⟩⟩

end Loaded

/-! ## Source maps -/

namespace SourceMap

/-- What a run binds, for `keys` that hold for each spec the keys of its
inputs. -/
structure Assigns (fs : Files) (specs : List SourceSpec) (includeTemplate : Bool)
    (sources : SourceMap) (docs : Documents) (keys : List (List DocKey)) : Prop where
  /-- One key for each input of a spec, all distinct. -/
  perInput : List.Forall₂ (fun spec ks => ks.length = spec.inputs.length ∧ ks.Nodup) specs keys
  held : ∀ x ∈ inputKeys specs keys, 1 ≤ x.2 ∧ ∃ d, docs[x.2]? = some d ∧ x.1.IsHeldAs fs d
  /-- A key is shared by the spellings of one path and by nothing else. -/
  shared : (inputKeys specs keys).Pairwise fun x y => x.2 = y.2 ↔ x.1.SamePath y.1
  /-- The last spec that is given for a moniker is what it stands for. -/
  bound : ∀ before spec after, specs = before ++ spec :: after →
    (∀ later ∈ after, later.moniker ≠ spec.moniker) →
    ∃ ks g, keys[before.length]? = some ks ∧ sources.group? spec.moniker = some g ∧
      g.members = ks
  unbound : ∀ moniker, (∀ spec ∈ specs, spec.moniker ≠ moniker) →
    sources.group? moniker =
      if includeTemplate = true ∧ moniker = templateMoniker then some (.single templateKey)
      else none
  template : ∀ moniker g, sources.group? moniker = some g → templateKey ∈ g.members →
    includeTemplate = true ∧ moniker = templateMoniker
  requested : includeTemplate = true →
    sources.group? templateMoniker = some (.single templateKey)

variable {fs : Files} {template : Document} {specs : List SourceSpec} {includeTemplate : Bool}
  {sources : SourceMap} {docs : Documents}

/-- Before anything is loaded there is the template. -/
theorem records_start (fs : Files) (template : Document) :
    ({ docs := #[template] } : Loaded).Records fs [] :=
  ⟨Nat.one_pos, by simp, by simp, .nil⟩

/-- What the end of a build adds is under the reserved moniker, which was free. -/
theorem exists_run_of_build (h : build fs template specs includeTemplate = .ok (sources, docs)) :
    ∃ m l, specs.foldlM (Loaded.bindSpec fs) ([], { docs := #[template] }) = .ok (m, l) ∧
      docs = l.docs ∧ (includeTemplate = true → m.group? templateMoniker = none) ∧
      ∀ moniker, sources.group? moniker =
        (m.group? moniker).or (if includeTemplate = true ∧ moniker = templateMoniker
          then some (.single templateKey) else none) := by
  obtain ⟨m, l, hrun, rfl, hsources⟩ := build_eq_ok_iff.1 h
  refine ⟨m, l, hrun, rfl, ?_⟩
  by_cases hinclude : includeTemplate = true
  · rw [if_pos hinclude] at hsources
    obtain ⟨hfree, rfl⟩ := hsources
    refine ⟨fun _ => hfree, fun moniker => ?_⟩
    rw [group?_bind]
    by_cases hmoniker : moniker = templateMoniker
    · simp [hmoniker, hfree, hinclude]
    · simp [hmoniker]
  · rw [if_neg hinclude] at hsources
    refine ⟨fun h => absurd h hinclude, fun moniker => ?_⟩
    rw [hsources, if_neg fun h => hinclude h.1, Option.or_none]

/-- The keys of a run are those of its documents, by what is asked of them. -/
theorem assigns_of_build (h : build fs template specs includeTemplate = .ok (sources, docs)) :
    ∃ keys, Assigns fs specs includeTemplate sources docs keys := by
  obtain ⟨m, l, hrun, rfl, hfree, hsources⟩ := exists_run_of_build h
  obtain ⟨keys, hkeys, hrecords, hgroups, -⟩ := (records_start fs template).foldlM hrun
  rw [List.nil_append] at hrecords
  have hgroups : ∀ moniker, m.group? moniker = (lastKeys? moniker specs keys).map .ofKeys := by
    intro moniker
    rw [hgroups]
    exact Option.or_none
  refine ⟨keys, hkeys, hrecords.held, hrecords.agree, ?bound, fun moniker hnone => ?unbound,
    fun moniker g hg hmem => ?template, fun hinclude => ?requested⟩
  case bound =>
    rintro before spec after rfl hlast
    obtain ⟨ks, hks, hlookup⟩ := lastKeys?_of_last hkeys hlast
    refine ⟨ks, .ofKeys ks, hks, ?_, SourceGroup.members_ofKeys ks⟩
    rw [hsources, hgroups, hlookup]
    rfl
  case unbound =>
    rw [hsources, hgroups, (lastKeys?_eq_none_iff hkeys).2 hnone]
    rfl
  case template =>
    rw [hsources, hgroups] at hg
    cases hlookup : lastKeys? moniker specs keys with
    | none =>
      rw [hlookup, Option.map_none, Option.none_or] at hg
      split at hg
      · assumption
      · cases hg
    | some ks =>
      rw [hlookup] at hg
      cases hg
      rw [SourceGroup.members_ofKeys] at hmem
      obtain ⟨i, hi⟩ := mem_inputKeys_of_lastKeys? hkeys (fun _ _ h => h.1) hlookup hmem
      exact absurd (hrecords.held _ hi).1 (Nat.not_succ_le_zero 0)
  case requested =>
    rw [hsources, hfree hinclude, Option.none_or, if_pos ⟨hinclude, rfl⟩]

/-- Where all files can be read nothing but the monikers and their paths
decides whether a build succeeds. -/
theorem exists_build_iff (hinputs : ∀ spec ∈ specs, ∀ i ∈ spec.inputs, ∃ d, i.Gives fs d) :
    (∃ out, build fs template specs includeTemplate = .ok out) ↔
      (∀ spec ∈ specs, spec.inputs ≠ [] ∧ ¬ spec.RepeatsPath) ∧
        (includeTemplate = true → ∀ spec ∈ specs, spec.moniker ≠ templateMoniker) := by
  have hstart := records_start fs template
  have hfree : ∀ {m : SourceMap} {l : Loaded},
      specs.foldlM (Loaded.bindSpec fs) ([], { docs := #[template] }) = .ok (m, l) →
      (m.group? templateMoniker = none ↔ ∀ spec ∈ specs, spec.moniker ≠ templateMoniker) := by
    intro m l hrun
    obtain ⟨keys, hkeys, -, hgroups, -⟩ := hstart.foldlM hrun
    rw [hgroups, ← lastKeys?_eq_none_iff hkeys]
    cases lastKeys? templateMoniker specs keys <;> simp [group?]
  constructor
  · rintro ⟨⟨sources, docs⟩, h⟩
    obtain ⟨m, l, hrun, -, hsources⟩ := build_eq_ok_iff.1 h
    obtain ⟨-, -, -, -, hspecs⟩ := hstart.foldlM hrun
    refine ⟨hspecs, fun hinclude => ?_⟩
    rw [if_pos hinclude] at hsources
    exact (hfree hrun).1 hsources.1
  · rintro ⟨hspecs, hreserved⟩
    obtain ⟨⟨m, l⟩, hrun⟩ := hstart.exists_foldlM [] hinputs hspecs
    by_cases hinclude : includeTemplate = true
    · refine ⟨(m.bind templateMoniker (.single templateKey), l.docs), build_eq_ok_iff.2 ?_⟩
      exact ⟨m, l, hrun, rfl, by
        rw [if_pos hinclude]
        exact ⟨(hfree hrun).2 (hreserved hinclude), rfl⟩⟩
    · refine ⟨(m, l.docs), build_eq_ok_iff.2 ⟨m, l, hrun, rfl, ?_⟩⟩
      rw [if_neg hinclude]

/-- What a build that succeeds binds, and when one fails whose files can all be
read: some spec is empty or repeats a path, or the template is asked for and its
moniker taken. -/
theorem build_assigns (fs : Files) (template : Document) (specs : List SourceSpec)
    (includeTemplate : Bool) :
    (∀ sources docs, build fs template specs includeTemplate = .ok (sources, docs) →
      docs[0]? = some template ∧ ∃ keys, Assigns fs specs includeTemplate sources docs keys) ∧
    ((∀ spec ∈ specs, ∀ i ∈ spec.inputs, ∃ d, i.Gives fs d) →
      ((∃ err, build fs template specs includeTemplate = .error err) ↔
        (∃ spec ∈ specs, spec.inputs = [] ∨ spec.RepeatsPath) ∨
          (includeTemplate = true ∧ ∃ spec ∈ specs, spec.moniker = templateMoniker))) := by
  refine ⟨fun sources docs h => ⟨(docs_of_build h).1, assigns_of_build h⟩, fun hinputs => ?_⟩
  have hfails : (∃ err, build fs template specs includeTemplate = .error err) ↔
      ¬ ∃ out, build fs template specs includeTemplate = .ok out := by
    cases build fs template specs includeTemplate <;> simp
  rw [hfails, exists_build_iff hinputs, not_and_or]
  refine or_congr ?_ (by push Not; exact Iff.rfl)
  push Not
  exact exists_congr fun spec => and_congr_right fun _ => or_iff_not_imp_left.symm

/-- Two spellings of one path share a key, and of two specs for one moniker the
last counts. -/
theorem build_assigns_spellings :
    let fs : Files := { files := [(["d", "s.xml"], "<s/>".toUTF8)] }
    let specs : List SourceSpec :=
      [⟨"a", [.path "d/s.xml"]⟩, ⟨"b", [.path "d//s.xml", .document (.ofRoot (.plain "x"))]⟩,
        ⟨"a", [.document (.ofRoot (.plain "y"))]⟩]
    (∀ spec ∈ specs, ∀ i ∈ spec.inputs, ∃ d, i.Gives fs d) ∧
    (∃ sources docs keys, build fs (.ofRoot (.plain "t")) specs true = .ok (sources, docs) ∧
      Assigns fs specs true sources docs keys) ∧
    ¬ ((∃ spec ∈ specs, spec.inputs = [] ∨ spec.RepeatsPath) ∨
      (true = true ∧ ∃ spec ∈ specs, spec.moniker = templateMoniker)) := by
  intro fs specs
  obtain ⟨hassigns, hfails⟩ := build_assigns fs (.ofRoot (.plain "t")) specs true
  have hread : ∀ p ∈ ["d/s.xml", "d//s.xml"], ∃ d, Document.ofFile fs p = .ok d := by
    intro p hp
    have hsome : ∀ p ∈ ["d/s.xml", "d//s.xml"],
        (Document.ofFile fs p).toOption.isSome = true := by
      decide +kernel
    exact ⟨_, Outcome.eq_ok_getD (hsome p hp) (.ofRoot (.plain "s"))⟩
  have hinputs : ∀ spec ∈ specs, ∀ i ∈ spec.inputs, ∃ d, i.Gives fs d := by
    simpa [specs, SourceInput.Gives] using hread
  have hsome : (build fs (.ofRoot (.plain "t")) specs true).toOption.isSome = true := by
    decide +kernel
  have hbuild := Outcome.eq_ok_getD hsome ([], #[])
  obtain ⟨-, keys, hkeys⟩ := hassigns _ _ hbuild
  refine ⟨hinputs, ⟨_, _, keys, hbuild, hkeys⟩, fun hbad => ?_⟩
  obtain ⟨err, herr⟩ := (hfails hinputs).2 hbad
  rw [hbuild] at herr
  cases herr

end SourceMap

end LabelTemplate
