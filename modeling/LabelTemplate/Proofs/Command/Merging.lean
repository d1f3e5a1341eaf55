import LabelTemplate.Command.Run
import LabelTemplate.Proofs.Outcome
import LabelTemplate.Proofs.Text.Keys

/-!
# Arguments laid over a configuration

`Pairs` and `Malformed` say of a given pair what its key and value are, or that it
has none.  `grouped` puts given values together by their keys, in the order
in which the keys first occur.  `LaidOver` says of a run what comes from the
configuration and what from the arguments; `merge_laidOver` that merging fails
only for want of a template or for a malformed pair, and else gives such a run.

The members of a configuration have one value each and are sorted
(`RunConfig.Keyed`), which is how they are read (`keyed_of_loadConfig`).
-/

namespace LabelTemplate.Command

/-! ## Pairs -/

/-- A text is a pair: around its first equals sign stand a key, which is not blank
and does without the blanks around it, and a value. -/
def Pairs (text key value : String) : Prop :=
  ∃ raw, text = raw ++ "=" ++ value ∧ '=' ∉ raw.toList ∧ Text.isBlankText raw = false ∧
    key = Text.trim raw

/-- A text is no pair: it has no equals sign, or only blanks in front of the first
one. -/
def Malformed (text : String) : Prop :=
  '=' ∉ text.toList ∨
    ∃ raw value, text = raw ++ "=" ++ value ∧ '=' ∉ raw.toList ∧ Text.isBlankText raw = true

namespace Run

variable {option text key value : String}

theorem splitOnce_eq_some_iff {raw : String} :
    Text.splitOnce '=' text = some (raw, value) ↔
      text = raw ++ "=" ++ value ∧ '=' ∉ raw.toList := by
  unfold Text.splitOnce
  constructor
  · intro h
    obtain ⟨⟨before, after⟩, hsplit, heq⟩ := Option.map_eq_some_iff.1 h
    obtain ⟨htext, hbefore⟩ := Text.splitOnceChars_eq_some_iff.1 hsplit
    cases heq
    refine ⟨?_, by rwa [String.toList_ofList]⟩
    rw [← String.toList_inj, htext]
    simp
  · rintro ⟨rfl, hraw⟩
    have hlist : (raw ++ "=" ++ value).toList = raw.toList ++ '=' :: value.toList := by simp
    rw [hlist, Text.splitOnceChars_append hraw]
    simp

theorem splitOnce_eq_none_iff : Text.splitOnce '=' text = none ↔ '=' ∉ text.toList := by
  rw [Text.splitOnce, Option.map_eq_none_iff, Text.splitOnceChars_eq_none_iff]

theorem isEmpty_trim (raw : String) : (Text.trim raw).isEmpty = Text.isBlankText raw := by
  rw [Bool.eq_iff_iff, ← Text.trim_eq_empty_iff, String.isEmpty_iff]

theorem splitPair_eq_ok_iff : splitPair option text = .ok (key, value) ↔ Pairs text key value := by
  unfold splitPair
  cases hsplit : Text.splitOnce '=' text with
  | none =>
    refine iff_of_false nofun ?_
    rintro ⟨raw, htext, hraw, -⟩
    rw [splitOnce_eq_some_iff.2 ⟨htext, hraw⟩] at hsplit
    cases hsplit
  | some pair =>
    obtain ⟨raw, value'⟩ := pair
    obtain ⟨htext, hraw⟩ := splitOnce_eq_some_iff.1 hsplit
    dsimp only
    rw [isEmpty_trim]
    constructor
    · intro h
      split at h
      · cases h
      · rename_i hblank
        cases h
        exact ⟨raw, htext, hraw, Bool.eq_false_iff.2 hblank, rfl⟩
    · rintro ⟨raw', htext', hraw', hblank, rfl⟩
      rw [splitOnce_eq_some_iff.2 ⟨htext', hraw'⟩] at hsplit
      cases hsplit
      rw [if_neg (Bool.eq_false_iff.1 hblank)]

/-- A text that is no pair is refused, and nothing else is. -/
theorem exists_splitPair_iff : (∃ pair, splitPair option text = .ok pair) ↔ ¬ Malformed text := by
  unfold splitPair Malformed
  cases hsplit : Text.splitOnce '=' text with
  | none => exact iff_of_false nofun (not_not_intro (.inl (splitOnce_eq_none_iff.1 hsplit)))
  | some pair =>
    obtain ⟨raw, value⟩ := pair
    obtain ⟨htext, hraw⟩ := splitOnce_eq_some_iff.1 hsplit
    dsimp only
    rw [isEmpty_trim]
    split
    · rename_i hblank
      exact iff_of_false nofun (not_not_intro (.inr ⟨raw, value, htext, hraw, hblank⟩))
    · rename_i hblank
      refine iff_of_true ⟨_, rfl⟩ ?_
      rintro (hnone | ⟨raw', value', htext', hraw', hblank'⟩)
      · rw [splitOnce_eq_none_iff.2 hnone] at hsplit
        cases hsplit
      · rw [splitOnce_eq_some_iff.2 ⟨htext', hraw'⟩] at hsplit
        cases hsplit
        exact hblank hblank'

end Run

/-! ## Groups -/

/-- The values that are given for a key, in order. -/
def valuesOf (given : List (String × String)) (key : String) : List String :=
  (given.filter (·.1 == key)).map Prod.snd

/-- The given keys in the order in which they first occur, each with its
values. -/
def grouped (given : List (String × String)) : List (String × List String) :=
  (given.map Prod.fst).eraseDups.map fun key => (key, valuesOf given key)

/-- A key is kept where it first occurs. -/
theorem eraseDups_concat (keys : List String) (key : String) :
    (keys ++ [key]).eraseDups =
      if key ∈ keys then keys.eraseDups else keys.eraseDups ++ [key] := by
  rw [List.eraseDups_append]
  by_cases h : key ∈ keys <;> simp [List.removeAll, h, List.eraseDups_cons]

theorem nodup_eraseDups (keys : List String) : keys.eraseDups.Nodup := by
  induction keys using List.reverseRecOn with
  | nil => exact List.nodup_nil
  | append_singleton keys key ih =>
    rw [eraseDups_concat]
    split
    · exact ih
    · rename_i h
      refine List.nodup_append.2 ⟨ih, List.pairwise_singleton _ _, fun a ha b hb heq => h ?_⟩
      rw [← List.mem_singleton.1 hb, ← heq]
      exact List.mem_eraseDups.1 ha

theorem keys_grouped (given : List (String × String)) :
    (grouped given).map Prod.fst = (given.map Prod.fst).eraseDups := by
  rw [grouped, List.map_map]
  exact List.map_id _

theorem valuesOf_concat (given : List (String × String)) (p : String × String) (key : String) :
    valuesOf (given ++ [p]) key = valuesOf given key ++ if p.1 = key then [p.2] else [] := by
  rw [valuesOf, List.filter_append, List.map_append]
  by_cases h : p.1 = key <;> simp [valuesOf, h]

theorem valuesOf_eq_nil {given : List (String × String)} {key : String}
    (h : key ∉ given.map Prod.fst) : valuesOf given key = [] := by
  rw [valuesOf, List.map_eq_nil_iff, List.filter_eq_nil_iff]
  intro p hp heq
  exact h (List.mem_map.2 ⟨p, hp, beq_iff_eq.1 heq⟩)

namespace Run

/-- A path goes to the group of its moniker, or else starts one at the end. -/
theorem addPath_map (moniker path : String) {keys : List String} (hkeys : keys.Nodup)
    (paths : String → List String) :
    addPath moniker path (keys.map fun key => (key, paths key)) =
      if moniker ∈ keys then
        keys.map fun key => (key, paths key ++ if moniker = key then [path] else [])
      else (keys.map fun key => (key, paths key)) ++ [(moniker, [path])] := by
  induction keys with
  | nil => rfl
  | cons key keys ih =>
    obtain ⟨hkey, hkeys⟩ := List.nodup_cons.1 hkeys
    rw [List.map_cons, addPath]
    by_cases h : key = moniker
    · subst h
      rw [if_pos rfl, if_pos List.mem_cons_self, List.map_cons, if_pos rfl]
      congr 1
      refine List.map_congr_left fun other hother => ?_
      have hother : key ≠ other := fun heq => hkey (heq ▸ hother)
      rw [if_neg hother, List.append_nil]
    · rw [if_neg h, ih hkeys]
      by_cases hmem : moniker ∈ keys
      · rw [if_pos hmem, if_pos (List.mem_cons_of_mem _ hmem), List.map_cons,
          if_neg (Ne.symm h), List.append_nil]
      · rw [if_neg hmem, if_neg (by simp [Ne.symm h, hmem]), List.cons_append]

/-- Paths that are added one by one come to stand in groups. -/
theorem foldl_addPath (given : List (String × String)) :
    given.foldl (fun groups p => addPath p.1 p.2 groups) [] = grouped given := by
  induction given using List.reverseRecOn with
  | nil => rfl
  | append_singleton given p ih =>
    rw [List.foldl_append, List.foldl_cons, List.foldl_nil, ih, grouped,
      addPath_map p.1 p.2 (nodup_eraseDups _), grouped, List.map_append, List.map_singleton,
      eraseDups_concat]
    have hvalues : (fun key => (key, valuesOf (given ++ [p]) key)) =
        fun key => (key, valuesOf given key ++ if p.1 = key then [p.2] else []) := by
      funext key
      rw [valuesOf_concat]
    by_cases h : p.1 ∈ given.map Prod.fst
    · rw [if_pos h, if_pos (List.mem_eraseDups.2 h), hvalues]
    · rw [if_neg h, if_neg (mt List.mem_eraseDups.1 h), hvalues, List.map_append,
        List.map_singleton, valuesOf_eq_nil h, if_pos rfl, List.nil_append]
      congr 1
      refine List.map_congr_left fun key hkey => ?_
      have hkey : p.1 ≠ key := fun heq => h (heq ▸ List.mem_eraseDups.1 hkey)
      rw [if_neg hkey, List.append_nil]

theorem mergeSources_eq (configured : List (String × List String))
    (given : List (String × String)) :
    mergeSources configured given =
      configured.filter (fun p => p.1 ∉ given.map Prod.fst) ++ grouped given := by
  change configured.filter _ ++ given.foldl (fun groups p => addPath p.1 p.2 groups) [] = _
  rw [foldl_addPath]
  congr 1
  refine List.filter_congr fun p _ => ?_
  rw [Bool.eq_iff_iff, decide_eq_true_eq, Bool.not_eq_true', ← Bool.not_eq_true, List.any_eq_true,
    List.mem_map]
  simp only [beq_iff_eq]

end Run

/-! ## Configurations -/

/-- The monikers and the keys of the context are sorted, so that each has one
value. -/
structure RunConfig.Keyed (config : RunConfig) : Prop where
  sources : Text.SortedKeys config.sources
  context : Text.SortedKeys config.context

/-- What every member keeps holds after all of them. -/
theorem readMembers_keeps {σ : Type} {P : σ → Prop}
    {member : σ → String → Cursor → Except JsonError (JsonRead σ)}
    (hmember : ∀ s name c s' c', P s → member s name c = .ok (s', c') → P s') {fuel : Nat}
    {first : Bool} {s s' : σ} {c c' : Cursor} (hs : P s)
    (h : JsonReader.readMembers member fuel first s c = .ok (s', c')) : P s' := by
  induction fuel generalizing first s c with
  | zero => cases h
  | succ fuel ih =>
    obtain ⟨⟨name?, cn⟩, -, h⟩ := Outcome.bind_eq_ok.1 h
    cases name? with
    | none =>
      obtain ⟨_, -, h⟩ := Outcome.bind_eq_ok.1 h
      cases h
      exact hs
    | some name =>
      obtain ⟨⟨sm, cm⟩, hm, h⟩ := Outcome.bind_eq_ok.1 h
      exact ih (hmember _ _ _ _ _ hs hm) h

namespace RunConfig

variable {r r' : RunConfig} {c c' : Cursor}

/-- A value of another type is a fault. -/
theorem refuse_ne_ok {α : Type} (expected : String) (c : Cursor) (a : α) :
    refuse expected c ≠ .ok a := by
  intro h
  unfold refuse at h
  dsimp only at h
  split at h
  case h_1 | h_2 | h_3 | h_4 | h_7 =>
    obtain ⟨_, -, h⟩ := Outcome.bind_eq_ok.1 h
    cases h
  case h_8 =>
    split at h
    · obtain ⟨_, -, h⟩ := Outcome.bind_eq_ok.1 h
      cases h
    · cases h
  all_goals cases h

theorem sortedKeys_of_readMap {α : Type} {value : Cursor → Except JsonError (JsonRead α)}
    {m : List (String × α)} (h : readMap value c = .ok (m, c')) : Text.SortedKeys m := by
  unfold readMap at h
  dsimp only at h
  split at h
  · refine readMembers_keeps (fun m name c m' c' hm hmember => ?_) .nil h
    obtain ⟨_, -, hmember⟩ := Outcome.bind_eq_ok.1 hmember
    obtain ⟨⟨v, cv⟩, -, hmember⟩ := Outcome.bind_eq_ok.1 hmember
    cases hmember
    exact hm.insertByKey name v
  · exact absurd h (refuse_ne_ok _ _ _)

/-- A setting that is read leaves the others as they are. -/
theorem Keyed.readField {f : ConfigField} (hr : r.Keyed)
    (h : readField r f c = .ok (r', c')) : r'.Keyed := by
  cases f <;> obtain ⟨⟨v, cv⟩, hv, h⟩ := Outcome.bind_eq_ok.1 h <;> cases h
  case sources => exact ⟨sortedKeys_of_readMap hv, hr.context⟩
  case context => exact ⟨hr.sources, sortedKeys_of_readMap hv⟩
  all_goals exact ⟨hr.sources, hr.context⟩

theorem Keyed.readNextItem {f : ConfigField} {first : Bool} (hr : r.Keyed)
    (h : JsonReader.readNextItem (RunConfig.readField r f) first c = .ok (some r', c')) :
    r'.Keyed := by
  have hitem : ∀ {c : Cursor},
      (RunConfig.readField r f c >>= fun read => pure (some read.1, read.2)) =
        Except.ok (some r', c') → r'.Keyed := by
    intro c h
    obtain ⟨⟨rf, cf⟩, hf, h⟩ := Outcome.bind_eq_ok.1 h
    cases h
    exact hr.readField hf
  unfold JsonReader.readNextItem at h
  dsimp only at h
  split at h
  · cases h
  · cases h
  · split at h
    · exact hitem h
    · split at h
      · split at h
        · cases h
        · cases h
        · exact hitem h
      · cases h

theorem Keyed.readListed {fields : List ConfigField} {first : Bool} (hr : r.Keyed)
    (h : RunConfig.readListed first r fields c = .ok (r', c')) : r'.Keyed := by
  induction fields generalizing first r c with
  | nil =>
    obtain ⟨_, -, h⟩ := Outcome.bind_eq_ok.1 h
    cases h
    exact hr
  | cons f fields ih =>
    obtain ⟨⟨next?, cn⟩, hnext, h⟩ := Outcome.bind_eq_ok.1 h
    cases next? with
    | none =>
      obtain ⟨_, -, h⟩ := Outcome.bind_eq_ok.1 h
      cases h
      exact hr
    | some rn => exact ih (hr.readNextItem hnext) h

theorem Keyed.readMember {seen seen' : List ConfigField} {name : String} (hr : r.Keyed)
    (h : RunConfig.readMember (r, seen) name c = .ok ((r', seen'), c')) : r'.Keyed := by
  unfold RunConfig.readMember at h
  dsimp only at h
  split at h
  · split at h
    · cases h
    · obtain ⟨_, -, h⟩ := Outcome.bind_eq_ok.1 h
      obtain ⟨⟨rf, cf⟩, hf, h⟩ := Outcome.bind_eq_ok.1 h
      cases h
      exact hr.readField hf
  · cases h

theorem keyed_of_read {text : String} (h : read text = .ok r) : r.Keyed := by
  have hstart : ({} : RunConfig).Keyed := ⟨.nil, .nil⟩
  unfold read at h
  dsimp only at h
  split at h
  · obtain ⟨⟨rs, cs⟩, hs, h⟩ := Outcome.bind_eq_ok.1 h
    obtain ⟨_, -, h⟩ := Outcome.bind_eq_ok.1 h
    cases h
    exact hstart.readListed hs
  · obtain ⟨⟨⟨rm, seen⟩, cm⟩, hm, h⟩ := Outcome.bind_eq_ok.1 h
    obtain ⟨_, hread, h⟩ := Outcome.bind_eq_ok.1 h
    cases hread
    obtain ⟨_, -, h⟩ := Outcome.bind_eq_ok.1 h
    cases h
    exact readMembers_keeps (P := fun s => s.1.Keyed)
      (fun _ _ _ _ _ hr hmember => hr.readMember hmember) hstart hm
  · obtain ⟨⟨rs, cs⟩, hs, -⟩ := Outcome.bind_eq_ok.1 h
    exact absurd hs (refuse_ne_ok _ _ _)

theorem Keyed.rebase (hr : r.Keyed) (directory : String) : (r.rebase directory).Keyed :=
  ⟨hr.sources.map _, hr.context⟩

end RunConfig

theorem keyed_of_loadConfig {fs : Files} {args : InputArgs} {config : RunConfig}
    (h : Run.loadConfig fs args = .ok config) : config.Keyed := by
  unfold Run.loadConfig at h
  split at h
  · cases h
    exact ⟨.nil, .nil⟩
  · obtain ⟨text, -, h⟩ := Outcome.bind_eq_ok.1 h
    obtain ⟨read, hread, h⟩ := Outcome.bind_eq_ok.1 h
    have hkeyed := RunConfig.keyed_of_read (Outcome.mapError_eq_ok.1 hread)
    cases h
    split
    · exact hkeyed.rebase _
    · exact hkeyed

/-! ## Merging -/

/-- What a run takes from the arguments and what from the configuration.  The
sources of the configuration stay for the monikers that are not given; a key of the
context has the value that is given last. -/
structure LaidOver (config : RunConfig) (args : InputArgs) (run : Run) : Prop where
  template : (args.template <|> config.template) = some run.template
  sources : ∃ given, List.Forall₂ (fun text p => Pairs text p.1 p.2) args.sources given ∧
    run.sources = config.sources.filter (fun p => p.1 ∉ given.map Prod.fst) ++ grouped given
  once : (run.sources.map Prod.fst).Nodup
  context : ∃ given, List.Forall₂ (fun text p => Pairs text p.1 p.2) args.context given ∧
    ∀ key, run.context.lookup key =
      ((given.reverse.lookup key).map Run.contextEntry).or (config.context.lookup key)
  sorted : Text.SortedKeys run.context
  out : run.out = config.out
  filename : run.filename = config.filename
  keepComments : run.keepComments = (args.keepComments || config.keepComments)
  skipStructureCheck :
    run.skipStructureCheck = (args.skipStructureCheck || config.skipStructureCheck)
  noTemplateSource : run.noTemplateSource = (args.noTemplateSource || config.noTemplateSource)

namespace Run

variable {config : RunConfig} {args : InputArgs}

theorem nodup_keys_mergeSources {configured : List (String × List String)}
    (h : Text.SortedKeys configured) (given : List (String × String)) :
    ((mergeSources configured given).map Prod.fst).Nodup := by
  rw [mergeSources_eq, List.map_append, keys_grouped]
  refine List.nodup_append.2
    ⟨h.nodup.sublist (List.filter_sublist.map _), nodup_eraseDups _, fun a ha b hb heq => ?_⟩
  obtain ⟨p, hp, rfl⟩ := List.mem_map.1 ha
  have hnot := (List.mem_filter.1 hp).2
  rw [decide_eq_true_eq] at hnot
  exact hnot (heq ▸ List.mem_eraseDups.1 hb)

theorem pairs_of_mapM {option : String} {texts : List String} {given : List (String × String)}
    (h : texts.mapM (splitPair option) = .ok given) :
    List.Forall₂ (fun text p => Pairs text p.1 p.2) texts given :=
  (Outcome.forall₂_of_mapM h).imp fun _ _ => splitPair_eq_ok_iff.1

theorem laidOver_of_merge (hconfig : config.Keyed) {run : Run} (h : merge config args = .ok run) :
    LaidOver config args run := by
  unfold merge at h
  split at h
  · rename_i template htemplate
    obtain ⟨sources, hsources, h⟩ := Outcome.bind_eq_ok.1 h
    obtain ⟨context, hcontext, h⟩ := Outcome.bind_eq_ok.1 h
    cases h
    exact
      { template := htemplate
        sources := ⟨sources, pairs_of_mapM hsources, mergeSources_eq _ _⟩
        once := nodup_keys_mergeSources hconfig.sources sources
        context := ⟨context, pairs_of_mapM hcontext, fun key =>
          Text.lookup_foldl_insertByKey (f := contextEntry) context config.context key⟩
        sorted := hconfig.context.foldl_insertByKey context
        out := rfl
        filename := rfl
        keepComments := rfl
        skipStructureCheck := rfl
        noTemplateSource := rfl }
  · cases h

/-- Merging succeeds with a template and with pairs that are all well formed. -/
theorem exists_merge_iff :
    (∃ run, merge config args = .ok run) ↔
      ¬ (args.template = none ∧ config.template = none) ∧
        ∀ text ∈ args.sources ++ args.context, ¬ Malformed text := by
  have hpairs : ∀ (option : String) (texts : List String),
      (∃ given, texts.mapM (splitPair option) = .ok given) ↔ ∀ text ∈ texts, ¬ Malformed text :=
    fun option texts => Outcome.exists_mapM_eq_ok_iff.trans
      (forall₂_congr fun _ _ => exists_splitPair_iff)
  rw [List.forall_mem_append, ← hpairs "--source", ← hpairs "--context"]
  unfold merge
  split
  · rename_i template htemplate
    have hsome : ¬ (args.template = none ∧ config.template = none) := by
      rintro ⟨hargs, hconfig⟩
      rw [hargs, hconfig] at htemplate
      cases htemplate
    constructor
    · rintro ⟨run, h⟩
      obtain ⟨sources, hsources, h⟩ := Outcome.bind_eq_ok.1 h
      obtain ⟨context, hcontext, -⟩ := Outcome.bind_eq_ok.1 h
      exact ⟨hsome, ⟨sources, hsources⟩, ⟨context, hcontext⟩⟩
    · rintro ⟨-, ⟨sources, hsources⟩, ⟨context, hcontext⟩⟩
      rw [hsources, hcontext]
      exact ⟨_, rfl⟩
  · rename_i hnone
    refine iff_of_false nofun fun h => h.1 ?_
    cases htemplate : args.template with
    | none =>
      cases hconfig : config.template with
      | none => exact ⟨rfl, rfl⟩
      | some template => exact absurd (by rw [htemplate, hconfig]; rfl) (hnone template)
    | some template => exact absurd (by rw [htemplate]; rfl) (hnone template)

/-- Merging fails only for want of a template or for a text that is no pair; else
the arguments are laid over the configuration. -/
theorem merge_laidOver (hconfig : config.Keyed) (args : InputArgs) :
    ((∃ failure, merge config args = .error failure) ↔
      (args.template = none ∧ config.template = none) ∨
        ∃ text ∈ args.sources ++ args.context, Malformed text) ∧
      ∀ run, merge config args = .ok run → LaidOver config args run := by
  refine ⟨?_, fun run => laidOver_of_merge hconfig⟩
  have hok : (∃ run, merge config args = .ok run) ↔ _ := exists_merge_iff
  cases h : merge config args with
  | ok run =>
    obtain ⟨htemplate, hpairs⟩ := hok.1 ⟨run, h⟩
    refine iff_of_false nofun ?_
    rintro (hnone | ⟨text, htext, hbad⟩)
    · exact htemplate hnone
    · exact hpairs text htext hbad
  | error failure =>
    refine iff_of_true ⟨failure, rfl⟩ ?_
    by_contra hno
    obtain ⟨htemplate, hpairs⟩ := not_or.1 hno
    obtain ⟨run, hrun⟩ := hok.2 ⟨htemplate, fun text htext hbad => hpairs ⟨text, htext, hbad⟩⟩
    rw [h] at hrun
    cases hrun

/-- A configuration with a group of two paths. -/
def interleaved.file : RunConfig :=
  { template := some "c.xml"
    sources := [("obs", ["c1", "c2"]), ("raw", ["r"])]
    context := [("mission", .string "TGO")] }

/-- Arguments that name the group twice, with another moniker in between. -/
def interleaved.given : InputArgs :=
  { sources := [" obs=a", "new==n", "obs=b"]
    context := ["mission=X", "mission=Y"] }

open interleaved in
/-- The group of the configuration is replaced and stands behind the others. -/
theorem merge_laidOver_interleaved :
    file.Keyed ∧ ∃ run, merge file given = .ok run ∧ LaidOver file given run ∧
      run.sources = [("raw", ["r"]), ("obs", ["a", "b"]), ("new", ["=n"])] :=
  have hkeyed : file.Keyed := ⟨by decide, by decide⟩
  ⟨hkeyed, _, rfl, (merge_laidOver hkeyed given).2 _ rfl, by decide⟩

end Run

end LabelTemplate.Command
