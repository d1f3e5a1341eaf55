import LabelTemplate.Proofs.Reading.Tags

/-!
# What cutting gives

Cutting a text takes one construct or one text after the other off its front.

* `Closes stop content` says that a construct with this content is closed by
  the `>` after it and by none inside it.  `CommentText` and
  `InstructionText` are what comments and instructions can hold, so that they
  are cut again as they were.
* `Markup.Cut` holds of every piece that is cut (`cut_of_mem_scan`).
* One lemma per construct says what is cut off a text that begins with it.
-/

namespace LabelTemplate.Xml.Markup

/-! ## The end of a construct -/

/-- The `>` after the content is the first at which `stop` holds. -/
def Closes (stop : List Char → Bool) (content : List Char) : Prop :=
  stop content.reverse = true ∧
    ∀ rest, splitAtClose stop [] (content ++ '>' :: rest) = some (content, rest)

theorem exists_of_splitAtClose {stop : List Char → Bool} {seen cs content rest : List Char}
    (h : splitAtClose stop seen cs = some (content, rest)) :
    ∃ body, content = seen.reverse ++ body ∧ cs = body ++ '>' :: rest ∧
      stop content.reverse = true ∧
      ∀ rest', splitAtClose stop seen (body ++ '>' :: rest') = some (content, rest') := by
  induction cs generalizing seen with
  | nil => simp [splitAtClose] at h
  | cons c cs ih =>
    simp only [splitAtClose] at h
    split at h
    · rename_i hc
      cases h
      refine ⟨[], by simp, by rw [hc.1, List.nil_append], by simpa using hc.2, fun rest' => ?_⟩
      simp [splitAtClose, hc.2]
    · rename_i hc
      obtain ⟨body, hcontent, hcs, hstop, hclose⟩ := ih h
      refine ⟨c :: body, by simpa using hcontent, by rw [hcs, List.cons_append], hstop,
        fun rest' => ?_⟩
      rw [List.cons_append, splitAtClose, if_neg hc, hclose]

theorem closes_of_splitAtClose {stop : List Char → Bool} {cs content rest : List Char}
    (h : splitAtClose stop [] cs = some (content, rest)) :
    cs = content ++ '>' :: rest ∧ Closes stop content := by
  obtain ⟨body, hcontent, hcs, hstop, hclose⟩ := exists_of_splitAtClose h
  rw [List.reverse_nil, List.nil_append] at hcontent
  subst hcontent
  exact ⟨hcs, hstop, hclose⟩

/-! ## What comments and instructions hold -/

def CommentText (body : List Char) : Prop :=
  Closes commentStop ('!' :: '-' :: '-' :: (body ++ ['-', '-']))

def InstructionText (body : List Char) : Prop :=
  Closes instructionStop ('?' :: (body ++ ['?'])) ∧ isDeclaration body = false

/-- What is known of a piece that was cut. -/
def Cut : Markup → Prop
  | comment body => CommentText body
  | instruction body => InstructionText body
  | _ => True

theorem commentStop_eq_true {seen : List Char} :
    commentStop seen = true ↔ ∃ more, seen = '-' :: '-' :: more ∧ 2 < more.length := by
  unfold commentStop
  split
  · simp
  · rename_i hne
    simp only [Bool.false_eq_true, false_iff]
    rintro ⟨more, rfl, -⟩
    exact hne more rfl

theorem instructionStop_eq_true {seen : List Char} :
    instructionStop seen = true ↔ ∃ more, seen = '?' :: more := by
  unfold instructionStop
  split
  · simp
  · rename_i hne
    simp only [Bool.false_eq_true, false_iff]
    rintro ⟨more, rfl⟩
    exact hne more rfl

/-- The two hyphens before the `>` of a comment are not those it opens
with. -/
theorem commentText_of_closes {body : List Char}
    (h : Closes commentStop ('!' :: '-' :: '-' :: body)) : CommentText (dropLastTwo body) := by
  obtain ⟨more, hmore, hlength⟩ := commentStop_eq_true.1 h.1
  have hbody : body = dropLastTwo body ++ ['-', '-'] := by
    obtain ⟨seen, rfl⟩ : ∃ seen, body = seen.reverse := ⟨body.reverse, by simp⟩
    have hseen : seen ++ ['-', '-', '!'] = '-' :: '-' :: more := by simpa using hmore
    match seen, hseen with
    | [], hseen =>
      cases hseen
      simp at hlength
    | [_], hseen =>
      cases hseen
      simp at hlength
    | _ :: _ :: seen, hseen =>
      cases hseen
      simp [dropLastTwo, List.dropLast_append_of_ne_nil]
  unfold CommentText
  rw [← hbody]
  exact h

theorem cut_of_ofConstruct {opened opened' : List (List Char)} {k : Construct}
    {cs content rest : List Char} {piece : Markup} (hopened : Construct.opened cs = .ok k)
    (hsplit : k.split cs = some (content, rest))
    (h : ofConstruct opened content k = .ok (piece, opened')) : piece.Cut := by
  cases k with
  | comment =>
    obtain ⟨-, hcloses⟩ := closes_of_splitAtClose hsplit
    simp only [ofConstruct] at h
    split at h
    · rename_i body hbody
      cases h
      rw [Text.dropStart?_eq_some] at hbody
      exact commentText_of_closes (by simpa [hbody] using hcloses)
    · cases h
  | cdata =>
    simp only [ofConstruct] at h
    split at h <;> cases h
    trivial
  | doctype =>
    simp only [ofConstruct] at h
    split at h
    · split at h <;> cases h
      trivial
    · cases h
  | instruction =>
    obtain ⟨hcs, hcloses⟩ := closes_of_splitAtClose hsplit
    simp only [ofConstruct] at h
    split at h
    · rename_i c₀ c more
      cases h
      split
      · trivial
      · rename_i hdecl
        obtain ⟨seen, hseen⟩ := instructionStop_eq_true.1 hcloses.1
        have hfirst : c₀ = '?' := by
          rw [hcs] at hopened
          unfold Construct.opened at hopened
          split at hopened <;> simp_all
        have hlast : c :: more = (c :: more).dropLast ++ ['?'] := by
          have hcontent : c₀ :: c :: more = seen.reverse ++ ['?'] := by
            rw [← List.reverse_reverse (c₀ :: c :: more), hseen, List.reverse_cons]
          cases hrev : seen.reverse with
          | nil => simp [hrev] at hcontent
          | cons x xs =>
            rw [hrev, List.cons_append, List.cons.injEq] at hcontent
            rw [hcontent.2, List.dropLast_concat]
        refine ⟨?_, by simpa using hdecl⟩
        rw [← hlast, ← hfirst]
        exact hcloses
    · cases h
  | endTag =>
    simp only [ofConstruct] at h
    split at h
    · cases h
    · split at h <;> cases h
      trivial
  | startTag =>
    simp only [ofConstruct] at h
    split at h <;> cases h <;> trivial

/-! ## Cutting step by step -/

/-- One construct is cut off the front. -/
theorem scanFrom_construct {opened opened' : List (List Char)} {k : Construct}
    {cs content rest : List Char} {piece : Markup} (hopened : Construct.opened cs = .ok k)
    (hsplit : k.split cs = some (content, rest))
    (h : ofConstruct opened content k = .ok (piece, opened')) (offset : Nat) :
    scanFrom offset opened ('<' :: cs) =
      (scanFrom (offset + 1 + Text.byteSize content + 1) opened' rest).cons offset piece := by
  rw [scanFrom]
  simp only [hopened]
  split
  · rename_i hnone
    rw [hsplit] at hnone
    cases hnone
  · rename_i content' rest' hsome
    rw [hsplit] at hsome
    cases hsome
    simp only [h]

/-- A text is cut off the front, up to the next `<`. -/
theorem scanFrom_text {raw rest : List Char} (hne : raw ≠ []) (hraw : '<' ∉ raw)
    (hrest : rest.head? = some '<' ∨ rest = []) (offset : Nat) (opened : List (List Char)) :
    scanFrom offset opened (raw ++ rest) =
      (scanFrom (offset + Text.byteSize raw) opened rest).cons offset (text raw) := by
  cases raw with
  | nil => exact absurd rfl hne
  | cons c raw =>
    have hc : c ≠ '<' := fun h => hraw (h ▸ List.mem_cons_self)
    have hstop : ∀ x ∈ raw, (x != '<') = true := fun x hx => by
      simpa using fun h : x = '<' => hraw (h ▸ List.mem_cons_of_mem _ hx)
    have htake : (raw ++ rest).takeWhile (· != '<') = raw := by
      rw [List.takeWhile_append_of_pos hstop]
      rcases hrest with h | rfl
      · cases rest with
        | nil => simp
        | cons x rest =>
          cases Option.some.inj h
          simp
      · simp
    have hdrop : (raw ++ rest).dropWhile (· != '<') = rest := by
      rw [List.dropWhile_append_of_pos hstop]
      rcases hrest with h | rfl
      · cases rest with
        | nil => simp
        | cons x rest =>
          cases Option.some.inj h
          simp
      · simp
    rw [List.cons_append, scanFrom]
    · simp only [htake, hdrop]
    · exact fun h => absurd h hc

theorem scanFrom_nil (offset : Nat) (opened : List (List Char)) :
    scanFrom offset opened [] = ⟨[], none⟩ := by
  rw [scanFrom]

/-- Every piece is cut as its construct says. -/
theorem cut_of_mem_scanFrom {offset : Nat} {opened : List (List Char)} {cs : List Char} :
    ∀ p ∈ (scanFrom offset opened cs).pieces, p.2.Cut := by
  induction hn : cs.length using Nat.strongRecOn generalizing offset opened cs with
  | ind n ih =>
    rw [scanFrom.eq_def]
    split
    · simp
    · rename_i cs
      split
      · simp
      · rename_i k hopened
        split
        · simp
        · rename_i content after hsplit
          have hlength := Construct.length_of_split hsplit
          simp only
          split
          · simp
          · rename_i piece opened' hpiece
            intro p hp
            rcases List.mem_cons.1 hp with rfl | hp
            · exact cut_of_ofConstruct hopened hsplit hpiece
            · exact ih after.length (by simp at hn; omega) rfl p hp
    · rename_i c cs _
      intro p hp
      rcases List.mem_cons.1 hp with rfl | hp
      · trivial
      · have hlength : (cs.dropWhile (· != '<')).length ≤ cs.length :=
          (List.dropWhile_sublist _).length_le
        exact ih (cs.dropWhile (· != '<')).length (by simp at hn; omega) rfl p hp

theorem cut_of_mem_scan {cs : List Char} : ∀ p ∈ (scan cs).pieces, p.2.Cut := by
  unfold scan
  split <;> exact cut_of_mem_scanFrom

end LabelTemplate.Xml.Markup
