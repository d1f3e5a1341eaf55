import LabelTemplate.Proofs.Files.Places
import LabelTemplate.Proofs.Reading.Run
import LabelTemplate.Proofs.Walk.States
import LabelTemplate.Template.Build

/-!
# What an export leaves behind

An export without a file name first derives one from the label
(`derivedName`).  If the label does not pass the checks or no name can be
derived nothing happens to the files; else one file is written, with the text
of the label, and nothing but the files themselves can keep that from
happening (`exportTo_outcome`).

The file stands in the directory if its name has no slash.  The name is taken
from the label, so nothing makes sure of that: `exportTo_upwards` is a label
that is written beside its directory.
-/

namespace LabelTemplate

open Xml

namespace Template

/-- The file name that an export derives from the label. -/
def derivedName (t : Template) : Except Error String := do
  let x ← t.exporter.finish
  Exporter.filename { x with engine := x.engine.mapTemplate (·.cleanupNamespaces) }
    t.options.identifier

end Template

/-! ## The name and the content -/

theorem Path.isName_xml {stem : String} (h : '/' ∉ (stem ++ ".xml").toList) :
    Path.IsName (stem ++ ".xml") := by
  have hlength : 4 ≤ (stem ++ ".xml").toList.length := by simp
  refine ⟨h, ?_, ?_⟩
  · rw [Path.isSilent, Bool.or_eq_false_iff, beq_eq_false_iff_ne]
    constructor
    · rw [Bool.eq_false_iff, Ne, String.isEmpty_iff]
      intro hempty
      rw [hempty] at hlength
      simp at hlength
    · intro hdot
      rw [hdot] at hlength
      simp at hlength
  · intro hparent
    rw [hparent] at hlength
    simp at hlength

namespace Exporter

/-- A derived name ends in `.xml`. -/
theorem exists_stem {x : Exporter} {identifier name : String}
    (h : x.filename identifier = .ok name) : ∃ stem, name = stem ++ ".xml" := by
  obtain ⟨v, -, h⟩ := Outcome.bind_eq_ok.1 h
  split at h
  · cases h
  · dsimp only at h
    split at h
    · cases h
    · exact ⟨_, (Except.ok.inj h).symm⟩

/-- What is written is the document without the declarations that it does not
use. -/
theorem document_cleanup (x : Exporter) :
    ({ x with engine := x.engine.mapTemplate (·.cleanupNamespaces) } : Exporter).document =
      x.document.cleanupNamespaces := by
  by_cases hdocs : 0 < x.engine.env.docs.size
  · exact Environment.template_setTemplate x.engine.env hdocs _
  · have hempty : x.engine.env.docs = #[] := by simpa using hdocs
    simp only [document, Engine.template, Engine.mapTemplate, Engine.setTemplate,
      Environment.template, Environment.setTemplate, hempty]
    rfl

end Exporter

/-! ## The export -/

namespace Template

variable {t : Template} {directory : String} {fs : Files}

theorem exportTo_of_not_finalized {e : Error} (h : t.finalize = .error e) :
    t.exportTo directory none fs = .error e fs := by
  cases hfinish : t.exporter.finish with
  | error e' =>
    rw [finalize, hfinish] at h
    cases h
    rw [exportTo, hfinish]
    rfl
  | ok x =>
    rw [finalize, hfinish] at h
    cases h

theorem exportTo_of_not_named {e : Error} (h : t.derivedName = .error e) :
    t.exportTo directory none fs = .error e fs := by
  cases hfinish : t.exporter.finish with
  | error e' =>
    rw [derivedName, hfinish] at h
    cases h
    rw [exportTo, hfinish]
    rfl
  | ok x =>
    rw [derivedName, hfinish] at h
    change Exporter.filename _ _ = _ at h
    rw [exportTo, hfinish]
    change Exporter.write x directory none t.options.identifier fs = _
    simp only [Exporter.write, h]
    rfl

/-- Once there is a label with a name, the export is the two writing tasks. -/
theorem exportTo_of_named {label : Document} {name : String} (hlabel : t.finalize = .ok label)
    (hname : t.derivedName = .ok name) :
    t.exportTo directory none fs =
      (EStateM.adaptExcept .io (Files.makeDirectories directory) >>= fun _ =>
        label.writeTo (Path.join directory name) >>= fun _ =>
          pure (Path.join directory name)) fs := by
  obtain ⟨x, hfinish, hx⟩ := Outcome.bind_eq_ok.1 hlabel
  cases hx
  rw [derivedName, hfinish] at hname
  change Exporter.filename _ _ = _ at hname
  rw [exportTo, hfinish, ← Exporter.document_cleanup]
  change Exporter.write x directory none t.options.identifier fs = _
  simp only [Exporter.write, hname]
  rfl

/-- Writing a label below a directory either fails and leaves all files as they
are, or writes this one file. -/
theorem writing_outcome (label : Document) (directory path : String) (fs : Files) :
    let task : FileTask Error String :=
      EStateM.adaptExcept .io (Files.makeDirectories directory) >>= fun _ =>
        label.writeTo path >>= fun _ => pure path
    (∃ fault fs', task fs = .error (.io fault) fs' ∧ fs.Extends fs') ∨
      ∃ fs', task fs = .ok path fs' ∧ fs.Gains (fs.placeOf path) label.toXml.toUTF8 fs' := by
  intro task
  have hmade := Files.extends_makeDirectories fs directory
  cases htask : Files.makeDirectories directory fs with
  | error fault fs₁ =>
    rw [Files.after, htask] at hmade
    refine .inl ⟨fault, fs₁, ?_, hmade⟩
    simp only [task, bind, EStateM.bind, EStateM.adaptExcept, htask]
  | ok u fs₁ =>
    rw [Files.after, htask] at hmade
    have hrest : task fs = (label.writeTo path >>= fun _ => pure path) fs₁ := by
      simp only [task, bind, EStateM.bind, EStateM.adaptExcept, htask]
    rw [hrest]
    obtain ⟨fault, fs', hwrite, hextends⟩ | ⟨fs', hwrite, hgains⟩ :=
      label.writeTo_outcome path fs₁
    · refine .inl ⟨fault, fs', ?_, hmade.trans hextends⟩
      simp only [bind, EStateM.bind, hwrite]
    · refine .inr ⟨fs', ?_, ?_⟩
      · simp only [bind, EStateM.bind, hwrite]
        rfl
      · rw [hmade.placeOf] at hgains
        exact hmade.trans_gains hgains

/-- An export without a file name leaves the files alone if there is no label or
no name for it.  Else it writes the label to one file, whose name is the derived
one, and leaves all other files as they are; if the operating system does not
let it, no file changes at all.  If the name has no slash the file is a child of
the directory. -/
theorem exportTo_outcome (t : Template) (directory : String) (fs : Files) :
    (∀ e, t.finalize = .error e → t.exportTo directory none fs = .error e fs) ∧
    (∀ e, t.derivedName = .error e → t.exportTo directory none fs = .error e fs) ∧
    ∀ label name, t.finalize = .ok label → t.derivedName = .ok name →
      let place := fs.placeOf (Path.join directory name)
      ((∃ fault fs', t.exportTo directory none fs = .error (.io fault) fs' ∧
          fs.Extends fs') ∨
        ∃ fs', t.exportTo directory none fs = .ok (Path.join directory name) fs' ∧
          fs.Gains place label.toXml.toUTF8 fs') ∧
      ('/' ∉ name.toList → place = fs.placeOf directory ++ [name]) := by
  refine ⟨fun e he => exportTo_of_not_finalized he, fun e he => exportTo_of_not_named he,
    fun label name hlabel hname => ⟨?_, fun hslash => ?_⟩⟩
  · rw [exportTo_of_named hlabel hname]
    exact writing_outcome label directory (Path.join directory name) fs
  · obtain ⟨x, -, hx⟩ := Outcome.bind_eq_ok.1 hname
    obtain ⟨stem, rfl⟩ := Exporter.exists_stem hx
    exact Files.placeOf_join fs directory (Path.isName_xml hslash)

/-- A template of one element, with an expression for its identifier. -/
def namedAfter (identifier : String) : Except Error Template :=
  build {}
    { template := some (.document (.ofTree [] { name := .plain "a", text := some "t" } none .nil))
      options := { identifier } }

theorem exportTo_outcome_namedAfter :
    ∃ t label fs', namedAfter "'urn:a:x'" = .ok t ∧
      t.finalize = .ok label ∧ t.derivedName = .ok "x.xml" ∧
      t.exportTo "out" none {} = .ok "out/x.xml" fs' ∧
      Files.Gains {} ["out", "x.xml"] label.toXml.toUTF8 fs' := by
  have hrun : ((namedAfter "'urn:a:x'").toOption.any fun t =>
      t.finalize.toOption.isSome && decide (t.derivedName.toOption = some "x.xml") &&
        match t.exportTo "out" none {} with
        | .ok _ _ => true
        | .error _ _ => false) = true := by decide +kernel
  obtain ⟨t, ht, hrun⟩ := (Option.any_eq_true _ _).1 hrun
  simp only [Bool.and_eq_true, decide_eq_true_eq, Option.isSome_iff_exists] at hrun
  obtain ⟨⟨⟨label, hlabel⟩, hname⟩, hok⟩ := hrun
  have hfinalize : t.finalize = .ok label := Outcome.toOption_eq_some.1 hlabel
  have hderived : t.derivedName = .ok "x.xml" := Outcome.toOption_eq_some.1 hname
  obtain ⟨-, -, houtcome⟩ := exportTo_outcome t "out" {}
  obtain ⟨hwritten, hplace⟩ := houtcome label "x.xml" hfinalize hderived
  have hjoin : Path.join "out" "x.xml" = "out/x.xml" := by decide +kernel
  have hout : Files.placeOf {} "out" = ["out"] := by decide +kernel
  rw [hplace (by decide), hout, hjoin] at hwritten
  obtain ⟨fault, fs', herror, -⟩ | ⟨fs', hexport, hgains⟩ := hwritten
  · rw [herror] at hok
    cases hok
  · exact ⟨t, label, fs', Outcome.toOption_eq_some.1 ht, hfinalize, hderived, hexport, hgains⟩

/-- The condition on the name cannot be left out: a label whose identifier ends
in a path is written where the path leads, which here is beside the directory. -/
theorem exportTo_upwards :
    ∃ t fs', namedAfter "'urn:a:../x'" = .ok t ∧ (∃ label, t.finalize = .ok label) ∧
      t.derivedName = .ok "../x.xml" ∧ (∃ path, t.exportTo "out" none {} = .ok path fs') ∧
      fs'.directories = [["out"]] ∧ fs'.files.map (·.1) = [["x.xml"]] := by
  have hrun : ((namedAfter "'urn:a:../x'").toOption.any fun t =>
      t.finalize.toOption.isSome && decide (t.derivedName.toOption = some "../x.xml") &&
        match t.exportTo "out" none {} with
        | .ok _ fs' => decide (fs'.directories = [["out"]] ∧ fs'.files.map (·.1) = [["x.xml"]])
        | .error _ _ => false) = true := by decide +kernel
  obtain ⟨t, ht, hrun⟩ := (Option.any_eq_true _ _).1 hrun
  simp only [Bool.and_eq_true, decide_eq_true_eq, Option.isSome_iff_exists] at hrun
  obtain ⟨⟨⟨label, hlabel⟩, hname⟩, hexport⟩ := hrun
  cases htask : t.exportTo "out" none {} with
  | error e fs' =>
    rw [htask] at hexport
    cases hexport
  | ok path fs' =>
    rw [htask] at hexport
    exact ⟨t, fs', Outcome.toOption_eq_some.1 ht, ⟨label, Outcome.toOption_eq_some.1 hlabel⟩,
      Outcome.toOption_eq_some.1 hname, ⟨path, htask⟩, of_decide_eq_true hexport⟩

end Template

end LabelTemplate
