import LabelTemplate.Files

/-!
# Places and what tasks leave at them

A path that leads somewhere leads to its place (`locate_eq`), and a name
without slashes that is joined to a directory leads to a child of the
directory's place (`placeOf_join`).

`Files.Extends fs fs'` says that `fs'` has the files of `fs` and at most more
directories: that is what making directories leaves, also when it fails.
`Files.Gains fs p bytes fs'` says that one file was written at `p` and no other
file has changed.
-/

namespace LabelTemplate

/-! ## Parts of a path -/

namespace Text

theorem splitChars_of_not_mem {sep : Char} {cs : List Char} (h : sep ∉ cs) :
    splitChars sep cs = [cs] := by
  induction cs with
  | nil => rfl
  | cons c cs ih =>
    rw [List.mem_cons, not_or] at h
    rw [splitChars, if_neg (Ne.symm h.1), ih h.2]

theorem splitChars_ne_nil (sep : Char) (cs : List Char) : splitChars sep cs ≠ [] := by
  cases cs with
  | nil => exact List.cons_ne_nil _ _
  | cons c cs =>
    rw [splitChars]
    split
    · exact List.cons_ne_nil _ _
    · split <;> exact List.cons_ne_nil _ _

/-- A separator ends the parts in front of it. -/
theorem splitChars_append (sep : Char) (as bs : List Char) :
    splitChars sep (as ++ sep :: bs) = splitChars sep as ++ splitChars sep bs := by
  induction as with
  | nil => simp [splitChars]
  | cons a as ih =>
    rw [List.cons_append, splitChars, splitChars, ih]
    split
    · rfl
    · cases hparts : splitChars sep as with
      | nil => exact absurd hparts (splitChars_ne_nil sep as)
      | cons p ps => rfl

end Text

namespace Path

theorem parts_of_not_mem {name : String} (h : '/' ∉ name.toList) : parts name = [name] := by
  rw [parts, Text.split, Text.splitChars_of_not_mem h]
  simp

theorem parts_eq {path name : String} {front : List Char}
    (hpath : path.toList = front ++ '/' :: name.toList) (h : '/' ∉ name.toList) :
    parts path = (Text.splitChars '/' front).map String.ofList ++ [name] := by
  rw [parts, Text.split, hpath, Text.splitChars_append, List.map_append,
    Text.splitChars_of_not_mem h]
  simp

theorem isAbsolute_iff {path : String} : isAbsolute path = true ↔ ['/'] <+: path.toList :=
  String.startsWith_string_iff

theorem endsWith_slash_iff {path : String} :
    path.endsWith "/" = true ↔ ['/'] <:+ path.toList := by
  rw [String.endsWith_eq_endsWith_toSlice, String.Slice.endsWith_string_iff]
  simp

/-- What follows the start of a path does not tell whether it is absolute. -/
theorem isAbsolute_append {directory path : String} {rest : List Char}
    (hne : directory.toList ≠ []) (hpath : path.toList = directory.toList ++ rest) :
    isAbsolute path = isAbsolute directory := by
  rw [Bool.eq_iff_iff, isAbsolute_iff, isAbsolute_iff, hpath]
  cases hchars : directory.toList with
  | nil => exact absurd hchars hne
  | cons c cs => simp [List.cons_prefix_cons]

/-- A name of something in a directory. -/
structure IsName (name : String) : Prop where
  no_slash : '/' ∉ name.toList
  not_silent : isSilent name = false
  ne_parent : name ≠ ".."

end Path

/-! ## Places -/

namespace Files

theorem walk_append (at_ : Place) (parts more : List String) :
    walk at_ (parts ++ more) = walk (walk at_ parts) more := by
  induction parts generalizing at_ with
  | nil => rfl
  | cons part parts ih =>
    rw [List.cons_append, walk, walk]
    split
    · exact ih _
    · split <;> exact ih _

theorem walk_name {name : String} (h : Path.IsName name) (at_ : Place) :
    walk at_ [name] = at_ ++ [name] := by
  simp [walk, h.not_silent, h.ne_parent]

theorem walk_empty (at_ : Place) : walk at_ [""] = at_ := rfl

/-- Where following the parts of a path succeeds it comes to their place. -/
theorem follow_eq {fs : Files} {at_ p : Place} {parts : List String}
    (h : fs.follow at_ parts = .ok p) : p = walk at_ parts := by
  induction parts generalizing at_ with
  | nil =>
    cases h
    rfl
  | cons part parts ih =>
    rw [follow] at h
    rw [walk]
    split at h
    · cases h
    · split at h
      · rw [if_pos ‹_›]
        exact ih h
      · rw [if_neg ‹_›]
        split at h
        · rw [if_pos ‹_›]
          exact ih h
        · rw [if_neg ‹_›]
          split at h
          · cases h
          · exact ih h

theorem locate_eq {fs : Files} {path : String} {p : Place} (h : fs.locate path = .ok p) :
    p = fs.placeOf path := by
  rw [locate, locateParts] at h
  split at h
  · cases h
  · exact follow_eq h

/-- A name in a directory leads to a child of the directory's place. -/
theorem placeOf_join (fs : Files) (directory : String) {name : String} (h : Path.IsName name) :
    fs.placeOf (Path.join directory name) = fs.placeOf directory ++ [name] := by
  have hrelative : Path.isAbsolute name = false := by
    rw [Bool.eq_false_iff, Ne, Path.isAbsolute_iff]
    intro hslash
    exact h.no_slash (hslash.subset (List.mem_singleton_self _))
  by_cases hempty : directory.isEmpty = true
  · have hdirectory : directory = "" := by simpa using hempty
    rw [Path.join, if_pos (by simp [hempty]), hdirectory]
    rw [placeOf, placeOf, Path.parts_of_not_mem h.no_slash, startOf, hrelative]
    exact walk_name h _
  · have hne : directory.toList ≠ [] := by simpa using hempty
    rw [Path.join, if_neg (by simp [hrelative, hempty])]
    split
    · obtain ⟨front, hfront⟩ := Path.endsWith_slash_iff.1 ‹_›
      have hpath : (directory ++ name).toList = front ++ '/' :: name.toList := by
        rw [String.toList_append, ← hfront]
        simp
      have hdirectory : Path.parts directory =
          (Text.splitChars '/' front).map String.ofList ++ [""] :=
        Path.parts_eq (by rw [← hfront]; rfl) (by simp)
      rw [placeOf, placeOf, startOf, startOf,
        Path.isAbsolute_append hne String.toList_append, Path.parts_eq hpath h.no_slash,
        hdirectory, walk_append, walk_append, walk_name h, walk_empty]
    · have hpath : (directory ++ "/" ++ name).toList = directory.toList ++ '/' :: name.toList := by
        simp
      rw [placeOf, placeOf, startOf, startOf, Path.isAbsolute_append hne hpath,
        Path.parts_eq hpath h.no_slash, walk_append, walk_name h]
      rfl

/-! ## Spellings of one path -/

/-- Silent parts of a path lead nowhere. -/
theorem walk_filter (at_ : Place) (parts : List String) :
    walk at_ (parts.filter (!Path.isSilent ·)) = walk at_ parts := by
  induction parts generalizing at_ with
  | nil => rfl
  | cons part parts ih =>
    by_cases hsilent : Path.isSilent part = true
    · rw [List.filter_cons_of_neg (by simp [hsilent]), walk, if_pos hsilent, ih]
    · rw [List.filter_cons_of_pos (by simp [hsilent]), walk, walk, if_neg hsilent, if_neg hsilent,
        ih, ih]

/-- The components of a path are its parts but for silent ones. -/
theorem filter_components (path : String) :
    (Path.components path).filter (!Path.isSilent ·) =
      (Path.parts path).filter (!Path.isSilent ·) := by
  -- What either test leaves out is silent.
  have htwice : ∀ test : String → Bool, (∀ part, test part = false → Path.isSilent part = true) →
      ∀ parts : List String, (parts.filter test).filter (!Path.isSilent ·) =
        parts.filter (!Path.isSilent ·) := by
    intro test htest parts
    rw [List.filter_filter]
    congr 1
    funext part
    cases hpart : test part with
    | true => simp
    | false => simp [htest part hpart]
  have hdots := htwice (· != ".") (by simp [Path.isSilent])
  have hempty := htwice (!·.isEmpty) (by simp +contextual [Path.isSilent])
  rw [← hempty (Path.parts path)]
  unfold Path.components
  cases (Path.parts path).filter (!·.isEmpty) with
  | nil => rfl
  | cons first rest =>
    dsimp only
    split
    · rename_i hfirst
      have hdot : first = "." := by simpa using (Bool.and_eq_true_iff.1 hfirst).2
      rw [hdots, hdot, List.filter_cons_of_neg (by decide)]
    · rw [List.filter_cons, hdots, List.filter_cons]

/-- Two spellings of one path have the same place. -/
theorem placeOf_eq_of_key {p q : String} (h : PathKey.of p = PathKey.of q) (fs : Files) :
    fs.placeOf p = fs.placeOf q := by
  obtain ⟨habsolute, hparts⟩ := PathKey.mk.inj h
  unfold placeOf startOf
  rw [habsolute, ← walk_filter _ (Path.parts p), ← walk_filter _ (Path.parts q),
    ← filter_components, ← filter_components, hparts]

/-- A path that can be read has a file at its place. -/
theorem readBytes_eq_ok {fs : Files} {path : String} {bytes : ByteArray}
    (h : fs.readBytes path = .ok bytes) : fs.content? (fs.placeOf path) = some bytes := by
  rw [readBytes] at h
  cases hplace : fs.locate path with
  | error fault =>
    rw [hplace] at h
    cases h
  | ok p =>
    rw [hplace] at h
    dsimp only [bind, Except.bind] at h
    rw [← locate_eq hplace]
    cases hcontent : fs.content? p with
    | none =>
      simp only [hcontent] at h
      cases h
    | some found =>
      simp only [hcontent] at h
      cases h
      rfl

/-- A path that can be read as a text has one at its place. -/
theorem readText_eq_ok {fs : Files} {path text : String} (h : fs.readText path = .ok text) :
    ∃ bytes, fs.content? (fs.placeOf path) = some bytes ∧ String.fromUTF8? bytes = some text := by
  rw [readText] at h
  cases hbytes : fs.readBytes path with
  | error fault =>
    rw [hbytes] at h
    cases h
  | ok bytes =>
    refine ⟨bytes, readBytes_eq_ok hbytes, ?_⟩
    rw [hbytes] at h
    dsimp only [bind, Except.bind] at h
    cases htext : String.fromUTF8? bytes with
    | none =>
      simp only [htext] at h
      cases h
    | some found =>
      simp only [htext] at h
      cases h
      rfl

/-! ## Making directories -/

structure Extends (fs fs' : Files) : Prop where
  files : fs'.files = fs.files
  home : fs'.home = fs.home
  directories : ∀ p ∈ fs.directories, p ∈ fs'.directories

theorem Extends.refl (fs : Files) : fs.Extends fs := ⟨rfl, rfl, fun _ h => h⟩

theorem Extends.trans {fs fs₁ fs₂ : Files} (h : fs.Extends fs₁) (h' : fs₁.Extends fs₂) :
    fs.Extends fs₂ where
  files := h'.files.trans h.files
  home := h'.home.trans h.home
  directories p hp := h'.directories p (h.directories p hp)

/-- The files after a task, whether it failed or not. -/
def after {ε α : Type} (fs : Files) (task : FileTask ε α) : Files :=
  match task fs with
  | .ok _ fs' => fs'
  | .error _ fs' => fs'

theorem extends_makeDirectory {fs fs' : Files} {path : String}
    (h : fs.makeDirectory path = .ok fs') : fs.Extends fs' := by
  rw [makeDirectory] at h
  cases hplace : fs.locateParts path (Path.partsBeforeEnd path) with
  | error fault =>
    rw [hplace] at h
    cases h
  | ok p =>
    rw [hplace] at h
    change (if _ then _ else _) = _ at h
    split at h
    · cases h
    · cases h
      exact ⟨rfl, rfl, fun q hq => List.mem_cons_of_mem _ hq⟩

section After

variable {ε α β : Type} {fs : Files}

theorem after_get (f : Files → FileTask ε α) : fs.after (get >>= f) = fs.after (f fs) := rfl

/-- A task of two parts extends the files if both parts do. -/
theorem extends_bind {task : FileTask ε α} {next : α → FileTask ε β}
    (h : fs.Extends (fs.after task)) (hnext : ∀ (a : α) (fs' : Files), fs'.Extends (fs'.after (next a))) :
    fs.Extends (fs.after (task >>= next)) := by
  unfold after at h ⊢
  simp only [bind, EStateM.bind]
  cases htask : task fs with
  | ok a fs' =>
    rw [htask] at h
    exact h.trans (hnext a fs')
  | error e fs' =>
    rw [htask] at h
    exact h

end After

theorem extends_makeUnlessThere (fs : Files) (path : String) :
    fs.Extends (fs.after (makeUnlessThere path)) := by
  rw [makeUnlessThere, after_get]
  cases hmake : fs.makeDirectory path with
  | ok made => exact extends_makeDirectory hmake
  | error fault =>
    simp only [after_get]
    split
    · exact .refl fs
    · exact .refl fs

/-- Making directories leaves all files as they are, also when it fails. -/
theorem extends_makeDirectoriesFrom (fuel : Nat) (fs : Files) (path : String) :
    fs.Extends (fs.after (makeDirectoriesFrom fuel path)) := by
  induction fuel generalizing fs path with
  | zero => exact .refl fs
  | succ fuel ih =>
    rw [makeDirectoriesFrom]
    split
    · exact .refl fs
    · rw [after_get]
      cases hmake : fs.makeDirectory path with
      | ok made => exact extends_makeDirectory hmake
      | error fault =>
        have hthere : fs.Extends (fs.after (do
            if (← get).pathIsDirectory path then return else throw fault :
            FileTask IoFault Unit)) := by
          rw [after_get]
          split
          · exact .refl fs
          · exact .refl fs
        cases fault with
        | notFound =>
          cases hparent : Path.parent? path with
          | none =>
            exact .refl fs
          | some parent =>
            exact extends_bind (ih fs parent) fun _ fs' => extends_makeUnlessThere fs' path
        | _ => exact hthere

theorem extends_makeDirectories (fs : Files) (path : String) :
    fs.Extends (fs.after (makeDirectories path)) :=
  extends_makeDirectoriesFrom _ fs path

/-! ## Writing a file -/

/-- One file was written, and no other has changed. -/
structure Gains (fs : Files) (p : Place) (bytes : ByteArray) (fs' : Files) : Prop where
  content : fs'.content? p = some bytes
  others : ∀ q, q ≠ p → fs'.content? q = fs.content? q
  home : fs'.home = fs.home
  directories : ∀ q ∈ fs.directories, q ∈ fs'.directories

section Put

variable {files : List (Place × ByteArray)} {p q : Place} (bytes : ByteArray)

theorem lookup_replaced_ne (hne : q ≠ p) :
    (files.map fun (r, old) => if r == p then (r, bytes) else (r, old)).lookup q =
      files.lookup q := by
  induction files with
  | nil => rfl
  | cons file files ih =>
    obtain ⟨r, old⟩ := file
    rw [List.map_cons]
    by_cases hr : r = p
    · have hq : (q == r) = false := by simpa [hr] using hne
      simp only [hr, beq_self_eq_true, if_true]
      rw [← hr, List.lookup_cons, List.lookup_cons, hq]
      exact hr ▸ ih
    · simp only [beq_eq_false_iff_ne.2 hr, Bool.false_eq_true, if_false]
      rw [List.lookup_cons, List.lookup_cons, ih]

theorem lookup_replaced_self (h : (files.lookup p).isSome = true) :
    (files.map fun (r, old) => if r == p then (r, bytes) else (r, old)).lookup p =
      some bytes := by
  induction files with
  | nil => cases h
  | cons file files ih =>
    obtain ⟨r, old⟩ := file
    rw [List.map_cons]
    by_cases hr : r = p
    · simp [hr]
    · have hp : (p == r) = false := by simpa using Ne.symm hr
      rw [List.lookup_cons, hp] at h
      simp only [beq_eq_false_iff_ne.2 hr, Bool.false_eq_true, if_false]
      rw [List.lookup_cons, hp]
      exact ih h

theorem content?_put (fs : Files) (p q : Place) (bytes : ByteArray) :
    (fs.put p bytes).content? q = if q = p then some bytes else fs.content? q := by
  unfold put content?
  split
  · split
    · next hsome hq =>
      rw [hq]
      exact lookup_replaced_self bytes hsome
    · next hq => exact lookup_replaced_ne bytes hq
  · next hnone =>
    have hp : fs.files.lookup p = none := Option.not_isSome_iff_eq_none.1 hnone
    rw [List.lookup_append]
    split
    · next hq => simp [hq, hp]
    · next hq =>
      have hne : (q == p) = false := by simpa using hq
      rw [List.lookup_cons, hne]
      simp

end Put

theorem put_spec (fs : Files) (p : Place) (bytes : ByteArray) :
    (fs.put p bytes).home = fs.home ∧ (fs.put p bytes).directories = fs.directories := by
  unfold put
  split
  · exact ⟨rfl, rfl⟩
  · exact ⟨rfl, rfl⟩

theorem Extends.gains_put {fs fs₁ : Files} (h : fs.Extends fs₁) (p : Place) (bytes : ByteArray) :
    fs.Gains p bytes (fs₁.put p bytes) where
  content := by rw [content?_put, if_pos rfl]
  others q hq := by rw [content?_put, if_neg hq, content?, content?, h.files]
  home := (put_spec fs₁ p bytes).1.trans h.home
  directories q hq := by
    rw [(put_spec fs₁ p bytes).2]
    exact h.directories q hq

/-- What is written after making directories is all that was written. -/
theorem Extends.trans_gains {fs fs₁ fs' : Files} {p : Place} {bytes : ByteArray}
    (h : fs.Extends fs₁) (h' : fs₁.Gains p bytes fs') : fs.Gains p bytes fs' where
  content := h'.content
  others q hq := by rw [h'.others q hq, content?, content?, h.files]
  home := h'.home.trans h.home
  directories q hq := h'.directories q (h.directories q hq)

/-- A text that can be written goes to the place of its path. -/
theorem writeText_eq_ok {fs fs' : Files} {path text : String}
    (h : fs.writeText path text = .ok fs') : fs' = fs.put (fs.placeOf path) text.toUTF8 := by
  rw [writeText] at h
  split at h
  · cases hplace : fs.locateParts path (Path.partsBeforeEnd path).dropLast with
    | error fault =>
      rw [hplace] at h
      cases h
    | ok p =>
      rw [hplace] at h
      cases h
  · cases hplace : fs.locate path with
    | error fault =>
      rw [hplace] at h
      cases h
    | ok p =>
      rw [hplace] at h
      change (if fs.isDirectory p then _ else _) = _ at h
      split at h
      · cases h
      · cases h
        rw [locate_eq hplace]

/-- Places do not depend on what is there. -/
theorem Extends.placeOf {fs fs' : Files} (h : fs.Extends fs') (path : String) :
    fs'.placeOf path = fs.placeOf path := by
  rw [Files.placeOf, Files.placeOf, startOf, startOf, h.home]

/-- Makes the directories above a path. -/
def makeAbove (path : String) : FileTask IoFault Unit :=
  match Path.parent? path with
  | some parent => if parent.isEmpty then pure () else makeDirectories parent
  | none => pure ()

theorem extends_makeAbove (fs : Files) (path : String) : fs.Extends (fs.after (makeAbove path)) := by
  unfold makeAbove
  split
  · split
    · exact .refl fs
    · exact extends_makeDirectories fs _
  · exact .refl fs

end Files

namespace Xml.Document

theorem writeTo_eq (d : Document) (path : String) :
    d.writeTo path = EStateM.adaptExcept .io
      (Files.makeAbove path >>= fun _ => FileTask.ofChange (·.writeText path d.toXml)) := by
  unfold writeTo Files.makeAbove
  cases Path.parent? path with
  | none => rfl
  | some parent =>
    by_cases hempty : parent.isEmpty = true
    · simp only [hempty, if_true]
      rfl
    · simp only [hempty]
      rfl

/-- Writing a document either fails and leaves all files as they are, or writes
this one file. -/
theorem writeTo_outcome (d : Document) (path : String) (fs : Files) :
    (∃ fault fs', d.writeTo path fs = .error (.io fault) fs' ∧ fs.Extends fs') ∨
      ∃ fs', d.writeTo path fs = .ok () fs' ∧
        fs.Gains (fs.placeOf path) d.toXml.toUTF8 fs' := by
  have habove := Files.extends_makeAbove fs path
  rw [writeTo_eq, EStateM.adaptExcept]
  unfold Files.after at habove
  simp only [bind, EStateM.bind]
  cases hmade : Files.makeAbove path fs with
  | error fault fs₁ =>
    rw [hmade] at habove
    exact .inl ⟨fault, fs₁, rfl, habove⟩
  | ok u fs₁ =>
    rw [hmade] at habove
    simp only [FileTask.ofChange]
    cases htext : fs₁.writeText path d.toXml with
    | error fault => exact .inl ⟨fault, fs₁, rfl, habove⟩
    | ok fs₂ =>
      refine .inr ⟨fs₂, rfl, ?_⟩
      rw [Files.writeText_eq_ok htext, habove.placeOf]
      exact habove.gains_put _ _

end Xml.Document

end LabelTemplate
