import LabelTemplate.Proofs.Walk.Build
import LabelTemplate.Proofs.Walk.Renumbered

/-!
# The order of sources does not matter

Documents get their keys in the order in which they are loaded, so another
order of the sources gives them other keys.  `Loaded.Renumbered σ st st'`
relates two stages of loading by the rekeying between them; loading one more
source keeps it (`Renumbered.bindSpec`), and two sources that are loaded in
either order lead to it (`Bounded.bindSpec_swap`).  By induction on the
permutation the two loads then differ by a rekeying only
(`SourceMap.build_perm`), and the runs after them give the same label
(`Template.finalize_perm`).
-/

namespace LabelTemplate

open Xml XPath Outcome

/-! ## Rekeyings -/

/-- Exchanges the block of `a` numbers from `n` on with the `b` numbers after
it. -/
def swapBlocks (n a b k : Nat) : Nat :=
  if k < n then k else if k < n + a then k + b else if k < n + a + b then k - a else k

theorem swapBlocks_of_lt {n a b k : Nat} (h : k < n) : swapBlocks n a b k = k := if_pos h

theorem swapBlocks_of_le {n a b k : Nat} (h : n + a + b ≤ k) : swapBlocks n a b k = k := by
  unfold swapBlocks
  split_ifs <;> omega

theorem swapBlocks_left {n a b i : Nat} (h : i < a) : swapBlocks n a b (n + i) = n + b + i := by
  unfold swapBlocks
  split_ifs <;> omega

theorem swapBlocks_right {n a b i : Nat} (h : i < b) : swapBlocks n a b (n + a + i) = n + i := by
  unfold swapBlocks
  split_ifs <;> omega

theorem swapBlocks_injective (n a b : Nat) : Function.Injective (swapBlocks n a b) := by
  intro j k hjk
  unfold swapBlocks at hjk
  split_ifs at hjk <;> omega

/-- Items appended in the other order are found at the exchanged places. -/
theorem getElem?_swapBlocks {α : Type} (xs as bs : Array α) (k : Nat) :
    (xs ++ bs ++ as)[swapBlocks xs.size as.size bs.size k]? = (xs ++ as ++ bs)[k]? := by
  unfold swapBlocks
  by_cases hxs : k < xs.size
  · rw [if_pos hxs, Array.getElem?_append_left (by simp; omega), Array.getElem?_append_left hxs,
      Array.getElem?_append_left (by simp; omega), Array.getElem?_append_left hxs]
  rw [if_neg hxs]
  by_cases has : k < xs.size + as.size
  · rw [if_pos has, Array.getElem?_append_right (by simp; omega),
      Array.getElem?_append_left (by simp; omega), Array.getElem?_append_right (by omega)]
    congr 1
    simp
    omega
  rw [if_neg has]
  by_cases hbs : k < xs.size + as.size + bs.size
  · rw [if_pos hbs, Array.getElem?_append_left (by simp; omega),
      Array.getElem?_append_right (by omega), Array.getElem?_append_right (by simp; omega)]
    congr 1
    simp
    omega
  · rw [if_neg hbs, Array.getElem?_eq_none (by simp; omega),
      Array.getElem?_eq_none (by simp; omega)]

namespace XPath.Rekeying

/-- First one rekeying, then another. -/
def after (τ σ : Rekeying) : Rekeying := ⟨τ.key ∘ σ.key, τ.injective.comp σ.injective⟩

def swap (n a b : Nat) : Rekeying := ⟨swapBlocks n a b, swapBlocks_injective n a b⟩

end XPath.Rekeying

theorem SourceGroup.rekey_after (τ σ : Rekeying) (g : SourceGroup) :
    g.rekey (τ.after σ) = (g.rekey σ).rekey τ := by
  simp only [rekey, Rekeying.after, Option.map_map, List.map_map]

/-- A group of documents whose keys stay as they are. -/
theorem SourceGroup.rekey_eq_self {σ : Rekeying} {g : SourceGroup}
    (h : ∀ k ∈ g.members, σ.key k = k) : g.rekey σ = g := by
  have hmembers : (g.rekey σ).members = g.members := by
    rw [members_rekey]
    exact (List.map_congr_left h).trans (List.map_id _)
  obtain ⟨primary, secondary⟩ := g
  cases primary with
  | none => exact congrArg (SourceGroup.mk none) hmembers
  | some key =>
    obtain ⟨hprimary, hsecondary⟩ := List.cons.inj hmembers
    exact congrArg₂ SourceGroup.mk (congrArg some hprimary) hsecondary

/-! ## Loading documents -/

/-- All inputs of a source are parsed documents. -/
def SourceSpec.Parsed (spec : SourceSpec) : Prop :=
  ∀ i ∈ spec.inputs, ∃ d, i = SourceInput.document d

theorem SourceSpec.Parsed.documents {spec : SourceSpec} (h : spec.Parsed) :
    ∃ ds : List Document, spec.inputs = ds.map .document := by
  obtain ⟨moniker, inputs⟩ := spec
  induction inputs with
  | nil => exact ⟨[], rfl⟩
  | cons i inputs ih =>
    obtain ⟨d, rfl⟩ := h i List.mem_cons_self
    obtain ⟨ds, rfl⟩ := ih fun j hj => h j (List.mem_cons_of_mem _ hj)
    exact ⟨d :: ds, rfl⟩

namespace Loaded

variable {fs : Files}

/-- The keys from `start` on, as a group. -/
def block (start count : Nat) : SourceGroup :=
  { primary := some start, secondary := List.range' (start + 1) count }

theorem members_block (start count : Nat) :
    (block start count).members = List.range' start (count + 1) := rfl

theorem loadAll_documents (l : Loaded) (ds : List Document) :
    l.loadAll fs (ds.map .document) =
      .ok (List.range' l.docs.size ds.length, { l with docs := l.docs ++ ds.toArray }) := by
  induction ds generalizing l with
  | nil => simp [loadAll]
  | cons d ds ih =>
    simp only [List.map_cons, loadAll, load, add, ih]
    change Except.ok _ = _
    simp [List.range'_succ]

/-- A source of at least one document is bound to the next keys. -/
theorem bindSpec_documents (st : SourceMap × Loaded) {spec : SourceSpec} {d : Document}
    {ds : List Document} (h : spec.inputs = (d :: ds).map .document) :
    bindSpec fs st spec = .ok (st.1.bind spec.moniker (block st.2.docs.size ds.length),
      { st.2 with docs := st.2.docs ++ (d :: ds).toArray }) := by
  refine bindSpec_eq_ok.2 ⟨List.range' st.2.docs.size (ds.length + 1), ?_,
    ⟨by simp, List.nodup_range'⟩, rfl⟩
  rw [h, loadAll_documents]
  rfl

/-- A source of no documents cannot be bound. -/
theorem bindSpec_fails {fs : Files} {spec : SourceSpec} (h : spec.inputs = [])
    (st : SourceMap × Loaded) :
    ∃ e, bindSpec fs st spec = .error e := by
  unfold bindSpec
  rw [h]
  exact ⟨_, rfl⟩

/-! ## Two stages of loading -/

/-- The same documents under other keys, with the same monikers for them; no
key is used yet from the size on. -/
structure Renumbered (σ : Rekeying) (st st' : SourceMap × Loaded) : Prop where
  template_key : σ.key templateKey = templateKey
  size : st'.2.docs.size = st.2.docs.size
  unused : ∀ k, st.2.docs.size ≤ k → σ.key k = k
  found : ∀ k, st'.2.docs[σ.key k]? = st.2.docs[k]?
  groups : ∀ m, st'.1.group? m = (st.1.group? m).map (·.rekey σ)

/-- Groups are of documents that were loaded. -/
structure Bounded (st : SourceMap × Loaded) : Prop where
  template : templateKey < st.2.docs.size
  group : ∀ m g, st.1.group? m = some g → ∀ k ∈ g.members, k < st.2.docs.size

theorem Renumbered.refl (st : SourceMap × Loaded) : Renumbered .same st st := by
  refine ⟨rfl, rfl, fun _ _ => rfl, fun _ => rfl, fun m => ?_⟩
  cases st.1.group? m with
  | none => rfl
  | some g => exact congrArg some (SourceGroup.rekey_eq_self fun _ _ => rfl).symm

theorem Renumbered.trans {σ τ : Rekeying} {st₁ st₂ st₃ : SourceMap × Loaded}
    (h₁ : Renumbered σ st₁ st₂) (h₂ : Renumbered τ st₂ st₃) :
    Renumbered (τ.after σ) st₁ st₃ where
  template_key := (congrArg τ.key h₁.template_key).trans h₂.template_key
  size := h₂.size.trans h₁.size
  unused k hk := (congrArg τ.key (h₁.unused k hk)).trans (h₂.unused k (h₁.size ▸ hk))
  found k := (h₂.found (σ.key k)).trans (h₁.found k)
  groups m := by
    rw [h₂.groups, h₁.groups, Option.map_map]
    exact congrArg (Option.map · _) (funext fun g => (g.rekey_after τ σ).symm)

theorem Renumbered.bind {σ : Rekeying} {m m' : SourceMap} {l l' : Loaded}
    (h : Renumbered σ (m, l) (m', l')) (moniker : String) (g : SourceGroup) :
    Renumbered σ (m.bind moniker g, l) (m'.bind moniker (g.rekey σ), l') := by
  refine ⟨h.template_key, h.size, h.unused, h.found, fun asked => ?_⟩
  simp only [SourceMap.group?_bind]
  split
  · rfl
  · exact h.groups asked

/-- Documents that both load get the same keys. -/
theorem Renumbered.append {σ : Rekeying} {m m' : SourceMap} {l l' : Loaded}
    (h : Renumbered σ (m, l) (m', l')) (ds : Array Document) :
    Renumbered σ (m, { l with docs := l.docs ++ ds }) (m', { l' with docs := l'.docs ++ ds }) := by
  have hsize : l'.docs.size = l.docs.size := h.size
  refine ⟨h.template_key, ?_, fun k hk => h.unused k ?_, fun k => ?_, h.groups⟩
  · simp only [Array.size_append, hsize]
  · simp only [Array.size_append] at hk
    exact (Nat.le_add_right _ _).trans hk
  · by_cases hk : k < l.docs.size
    · have hlt : σ.key k < l'.docs.size := by
        have hfound := h.found k
        rw [Array.getElem?_eq_getElem hk] at hfound
        exact (Array.getElem?_eq_some_iff.1 hfound).1
      rw [Array.getElem?_append_left hlt, Array.getElem?_append_left hk]
      exact h.found k
    · have hk : l.docs.size ≤ k := Nat.not_lt.1 hk
      rw [h.unused k hk, Array.getElem?_append_right (hsize ▸ hk), Array.getElem?_append_right hk,
        hsize]

theorem mem_members_block {start count k : Nat} (h : k ∈ (block start count).members) :
    start ≤ k ∧ k < start + (count + 1) := by
  rw [members_block, List.mem_range'] at h
  omega

/-- A source given as documents is loaded in both, with the same keys. -/
theorem Renumbered.bindSpec {σ : Rekeying} {st st' : SourceMap × Loaded}
    (h : Renumbered σ st st') {spec : SourceSpec} (hspec : spec.Parsed) :
    Alike (Renumbered σ) (bindSpec fs st spec) (bindSpec fs st' spec) := by
  obtain ⟨ds, hds⟩ := hspec.documents
  cases ds with
  | nil =>
    obtain ⟨e, he⟩ := bindSpec_fails hds st
    obtain ⟨e', he'⟩ := bindSpec_fails hds st'
    rw [he, he']
    exact .error trivial
  | cons d ds =>
    rw [bindSpec_documents st hds, bindSpec_documents st' hds]
    have hblock : (block st.2.docs.size ds.length).rekey σ = block st'.2.docs.size ds.length := by
      rw [h.size]
      exact SourceGroup.rekey_eq_self fun k hk => h.unused k (mem_members_block hk).1
    refine .ok ?_
    rw [← hblock]
    exact (h.append (d :: ds).toArray).bind spec.moniker _

theorem Bounded.bindSpec {st st' : SourceMap × Loaded} (h : Bounded st) {spec : SourceSpec} (hspec : spec.Parsed)
    (hok : bindSpec fs st spec = .ok st') : Bounded st' := by
  obtain ⟨ds, hds⟩ := hspec.documents
  cases ds with
  | nil =>
    obtain ⟨e, he⟩ := bindSpec_fails hds st
    rw [he] at hok
    cases hok
  | cons d ds =>
    rw [bindSpec_documents st hds] at hok
    cases hok
    refine ⟨?_, fun asked g hg k hk => ?_⟩
    · simp only [Array.size_append]
      exact Nat.lt_add_right _ h.template
    · rw [SourceMap.group?_bind] at hg
      simp only [Array.size_append, List.size_toArray, List.length_cons]
      split at hg
      · cases hg
        exact (mem_members_block hk).2
      · exact Nat.lt_add_right _ (h.group asked g hg k hk)

theorem rekey_block {σ : Rekeying} {start start' count : Nat}
    (h : ∀ i ≤ count, σ.key (start + i) = start' + i) :
    (block start count).rekey σ = block start' count := by
  have hsecondary : (List.range' (start + 1) count).map σ.key = List.range' (start' + 1) count := by
    refine List.ext_getElem (by simp) fun i hi hi' => ?_
    have hlt : i < count := by simpa using hi'
    simpa [Nat.add_assoc] using h (1 + i) (by omega)
  exact congrArg₂ SourceGroup.mk (congrArg some (h 0 (Nat.zero_le _))) hsecondary

/-- Two sources with different monikers can be loaded in either order. -/
theorem Bounded.bindSpec_swap {st : SourceMap × Loaded} (h : Bounded st) {spec spec' : SourceSpec}
    (hspec : spec.Parsed) (hspec' : spec'.Parsed) (hne : spec.moniker ≠ spec'.moniker) :
    Alike (fun r r' => ∃ σ, Renumbered σ r r')
      (Loaded.bindSpec fs st spec >>= (Loaded.bindSpec fs · spec'))
      (Loaded.bindSpec fs st spec' >>= (Loaded.bindSpec fs · spec)) := by
  obtain ⟨as, has⟩ := hspec.documents
  obtain ⟨bs, hbs⟩ := hspec'.documents
  cases as with
  | nil => exact Related.of_fails (bindSpec_fails has st) (bindSpec_fails has)
  | cons a as =>
    cases bs with
    | nil => exact (Related.of_fails (bindSpec_fails hbs st) (bindSpec_fails hbs)).symm
    | cons b bs =>
      rw [bindSpec_documents st has, bindSpec_documents st hbs]
      change Alike _ (Loaded.bindSpec fs _ spec') (Loaded.bindSpec fs _ spec)
      rw [bindSpec_documents _ has, bindSpec_documents _ hbs]
      refine .ok ⟨.swap st.2.docs.size (as.length + 1) (bs.length + 1), ?_, ?_, ?_, ?_, ?_⟩
      · exact swapBlocks_of_lt h.template
      · simp only [Array.size_append, List.size_toArray]
        omega
      · intro k hk
        simp only [Array.size_append, List.size_toArray, List.length_cons] at hk
        exact swapBlocks_of_le hk
      · exact fun k => getElem?_swapBlocks st.2.docs (a :: as).toArray (b :: bs).toArray k
      · intro asked
        simp only [SourceMap.group?_bind, Array.size_append, List.size_toArray, List.length_cons]
        by_cases hasked : asked = spec.moniker
        · rw [if_pos hasked, if_neg (hasked ▸ hne), if_pos hasked]
          refine congrArg some (rekey_block fun i hi => ?_).symm
          exact swapBlocks_left (Nat.lt_succ_of_le hi)
        · rw [if_neg hasked, if_neg hasked]
          split
          · refine congrArg some (rekey_block fun i hi => ?_).symm
            exact swapBlocks_right (Nat.lt_succ_of_le hi)
          · cases hg : st.1.group? asked with
            | none => rfl
            | some g =>
              refine congrArg some (SourceGroup.rekey_eq_self fun k hk => ?_).symm
              exact swapBlocks_of_lt (h.group asked g hg k hk)

/-- Loading in another order gives the same documents under other keys. -/
theorem Bounded.foldlM_perm {specs specs' : List SourceSpec} (hperm : specs.Perm specs')
    {st : SourceMap × Loaded} (h : Bounded st) (hspecs : ∀ spec ∈ specs, spec.Parsed)
    (hmonikers : (specs.map (·.moniker)).Nodup) :
    Alike (fun r r' => ∃ σ, Renumbered σ r r') (specs.foldlM (Loaded.bindSpec fs) st)
      (specs'.foldlM (Loaded.bindSpec fs) st) := by
  induction hperm generalizing st with
  | nil => exact .ok ⟨.same, .refl st⟩
  | cons spec hperm ih =>
    rw [List.foldlM_cons, List.foldlM_cons]
    obtain ⟨hspec, hspecs⟩ := List.forall_mem_cons.1 hspecs
    refine (Related.refl (r := Eq) (fun _ => rfl) _).results.bind ?_
    rintro st₁ _ ⟨rfl, hok, -⟩
    exact ih (h.bindSpec hspec hok) hspecs (List.nodup_cons.1 hmonikers).2
  | swap spec spec' specs =>
    obtain ⟨hspec', hspec, hspecs⟩ := by simpa only [List.forall_mem_cons] using hspecs
    have hne := (List.nodup_cons.1 hmonikers).1
    simp only [List.foldlM_cons, ← bind_assoc]
    have hne : spec'.moniker ≠ spec.moniker := fun heq =>
      hne (List.mem_cons.2 (.inl heq))
    refine (h.bindSpec_swap hspec' hspec hne).bind ?_
    rintro st₁ st₂ ⟨σ, hσ⟩
    have hrest : Alike (Renumbered σ) (specs.foldlM (Loaded.bindSpec fs) st₁)
        (specs.foldlM (Loaded.bindSpec fs) st₂) :=
      Related.foldlM hσ fun spec hspec _ _ hr => hr.bindSpec (hspecs spec hspec)
    exact hrest.mono (fun _ _ _ => trivial) fun _ _ hr => ⟨σ, hr⟩
  | trans hperm hperm' ih ih' =>
    refine (ih h hspecs hmonikers).trans (ih' h (fun spec hspec => ?_) ?_) ?_
    · exact hspecs spec (hperm.mem_iff.2 hspec)
    · exact (hperm.map _).nodup_iff.1 hmonikers
    · rintro st₁ st₂ st₃ ⟨σ, hσ⟩ ⟨τ, hτ⟩
      exact ⟨τ.after σ, hσ.trans hτ⟩

end Loaded

/-! ## Runs -/

/-- Sources in another order give the same documents under other keys, with
the same monikers for them. -/
theorem SourceMap.build_perm {fs : Files} {specs specs' : List SourceSpec}
    (hperm : specs.Perm specs') (hspecs : ∀ spec ∈ specs, spec.Parsed)
    (hmonikers : (specs.map (·.moniker)).Nodup) (template : Document) (includeTemplate : Bool) :
    Alike (fun r r' => ∃ σ : Rekeying, σ.key templateKey = templateKey ∧
        (∀ k, r'.2[σ.key k]? = r.2[k]?) ∧
        ∀ m, r'.1.group? m = (r.1.group? m).map (·.rekey σ))
      (SourceMap.build fs template specs includeTemplate)
      (SourceMap.build fs template specs' includeTemplate) := by
  have hstart : Loaded.Bounded (([], { docs := #[template] }) : SourceMap × Loaded) :=
    ⟨Nat.zero_lt_one, fun m g hg => by cases hg⟩
  refine (hstart.foldlM_perm hperm hspecs hmonikers).bind ?_
  rintro ⟨m, l⟩ ⟨m', l'⟩ ⟨σ, h⟩
  cases includeTemplate with
  | false => exact .ok ⟨σ, h.template_key, h.found, h.groups⟩
  | true =>
    have htaken : (m'.group? templateMoniker).isSome = (m.group? templateMoniker).isSome := by
      rw [h.groups]
      exact Option.isSome_map
    simp only [if_true, htaken]
    split
    · exact .error trivial
    · have hbound := h.bind templateMoniker (.single templateKey)
      have hsingle : (SourceGroup.single templateKey).rekey σ = .single templateKey :=
        SourceGroup.rekey_eq_self fun k hk => by
          rw [List.mem_singleton.1 hk, h.template_key]
      rw [hsingle] at hbound
      exact .ok ⟨σ, hbound.template_key, hbound.found, hbound.groups⟩

namespace Template

/-- The order of the sources does not matter: sources with different monikers,
given as documents, lead to the same label in every order, or in none to a
label. -/
theorem finalize_perm {fs : Files} {input : TemplateInput} {sources : List SourceSpec}
    (hregistry : input.registry = Builtins.registry)
    (hsources : ∀ spec ∈ input.sources, spec.Parsed)
    (hmonikers : (input.sources.map (·.moniker)).Nodup)
    (hperm : input.sources.Perm sources) :
    (build fs { input with sources } >>= finalize).toOption =
      (build fs input >>= finalize).toOption := by
  refine (Related.toOption_eq ?_).symm
  have hbuild : Alike (fun t t' : Template => ∃ σ, t.exporter.Renumbered σ t'.exporter)
      (build fs input) (build fs { input with sources }) := by
    refine (Related.refl (r := Eq) (fun _ => rfl) _).bind ?_
    rintro d _ rfl
    refine (SourceMap.build_perm hperm hsources hmonikers d _).bind ?_
    rintro ⟨m, docs⟩ ⟨m', docs'⟩ ⟨σ, htemplate, hfound, hgroups⟩
    have hrenumbered (env env' : Environment) (h : env.Renumbered σ env') :
        Engine.Renumbered σ { env } { env := env' } := ⟨h, rfl⟩
    refine (Engine.walk_alike (hrenumbered _ _ ?_)).bind fun e e' h => .ok ⟨σ, h, ?_⟩
    · exact ⟨htemplate, hfound, hgroups, hregistry, hregistry, rfl, rfl, rfl⟩
    dsimp only
    rw [h.template_eq]
  refine hbuild.bind fun t t' ⟨σ, h⟩ => h.finish_alike.bind fun x x' hx => ?_
  rw [hx.document_eq]
  exact .ok rfl

/-- A template with an element for each document of `s` and a text from `t`. -/
def fromTwoSources (sources : List SourceSpec) : TemplateInput :=
  { template := some (.document (.ofTree [] { name := .plain "a" } none
      (.node (.element
        { name := .plain "b"
          attributes := [⟨⟨some directivePrefix, some directiveNamespace, "sources"⟩, "s"⟩,
            ⟨⟨some directivePrefix, some directiveNamespace, "fetch"⟩, "true()"⟩] }) none .nil
      (.node (.element
        { name := .plain "c"
          attributes := [⟨⟨some directivePrefix, some directiveNamespace, "sources"⟩, "t"⟩,
            ⟨⟨some directivePrefix, some directiveNamespace, "fill"⟩, "/a/b"⟩] }) none .nil .nil))))
    sources }

def leafDocument (text : String) : Document :=
  .ofTree [] { name := .plain "a" } none
    (.node (.element { name := .plain "b", text := some text }) none .nil .nil)

def twoDocuments : SourceSpec := ⟨"s", [.document (leafDocument "1"), .document (leafDocument "2")]⟩

def oneDocument : SourceSpec := ⟨"t", [.document (leafDocument "3")]⟩

theorem finalize_perm_twoSources :
    ∃ label : Document,
      build {} (fromTwoSources [twoDocuments, oneDocument]) >>= finalize = .ok label ∧
      build {} (fromTwoSources [oneDocument, twoDocuments]) >>= finalize = .ok label ∧
      (leaves label label.root).map label.text? = [some "1", some "2", some "3"] := by
  have hrun : ((build {} (fromTwoSources [twoDocuments, oneDocument]) >>= finalize).toOption.any
      fun label => decide ((leaves label label.root).map label.text? =
        [some "1", some "2", some "3"])) = true := by decide +kernel
  obtain ⟨label, hlabel, htexts⟩ := (Option.any_eq_true _ _).1 hrun
  have hparsed : ∀ spec ∈ [twoDocuments, oneDocument], spec.Parsed := by
    simp [SourceSpec.Parsed, twoDocuments, oneDocument]
  have hmonikers : ([twoDocuments, oneDocument].map (·.moniker)).Nodup := by decide
  have hsame : (build {} (fromTwoSources [oneDocument, twoDocuments]) >>= finalize).toOption =
      (build {} (fromTwoSources [twoDocuments, oneDocument]) >>= finalize).toOption :=
    @finalize_perm _ (fromTwoSources _) _ rfl hparsed hmonikers
      (List.Perm.swap oneDocument twoDocuments [])
  exact ⟨label, Outcome.toOption_eq_some.1 hlabel,
    Outcome.toOption_eq_some.1 (hsame.trans hlabel), of_decide_eq_true htexts⟩

end Template

end LabelTemplate
