import Storyworld.Proofs.Command.Call

/-!
An account of the commands that are found in a text, whatever the text is: where they stand, and for
every other call of a verb why it is none of them.
-/

namespace Storyworld.Command

variable {v w : Verb} {c : Char} {text s t a b body inner rest behind : List Char}
variable {cmd? : Option Command} {o : Occurrence} {found more : List Occurrence}

/-! ## Ends of a text -/

-- Where an end of the text begins.
def place (text s : List Char) : Nat :=
  text.length - s.length

theorem drop_place (h : s <:+ text) : text.drop (place text s) = s :=
  (List.suffix_iff_eq_drop.mp h).symm

theorem place_lt (h : s <:+ text) (hl : t.length < s.length) : place text s < place text t := by
  have := h.length_le
  unfold place
  omega

theorem place_le (hl : t.length ≤ s.length) : place text s ≤ place text t := by
  unfold place
  omega

theorem place_append (h : a ++ s <:+ text) : place text s = place text (a ++ s) + a.length := by
  have := h.length_le
  rw [List.length_append] at this
  simp only [place, List.length_append]
  omega

theorem suffix_of_head (h : t <:+ a ++ b) (hh : t.head? = some c) (hn : c ∉ a) : t <:+ b := by
  obtain ⟨p, hp⟩ := h
  obtain ⟨d, rfl, rfl⟩ | ⟨d, rfl, rfl⟩ := List.append_eq_append_iff.mp hp
  · cases d
    case nil       => exact List.suffix_rfl
    case cons x d  => simp_all
  · exact List.suffix_append d t

theorem head?_of_opening (h : opening v <+: t) : t.head? = some '_' := by
  obtain ⟨r, rfl⟩ := h
  rfl

-- Calls do not begin inside the word of a verb.
theorem suffix_opening (ht : opening w <+: t) (h : t <:+ opening v ++ body) :
    t = opening v ++ body ∨ t <:+ body := by
  obtain rfl | h := List.suffix_cons_iff.mp h
  · exact .inl rfl
  · exact .inr <| suffix_of_head h (head?_of_opening ht) underscore_not_mem_opening_tail

/-! ## The way of the scan -/

theorem Commented.suffix (h : Commented s body rest) : body ++ rest <:+ s := by
  obtain ⟨blanks, rfl, -⟩ := h.start
  exact ⟨blanks ++ ['/', '/'], by simp⟩

theorem Reason.suffix {reason : String} (h : Reason s reason rest) : rest <:+ s := by
  cases h
  case comment body h => exact (List.suffix_append body rest).trans h.suffix
  case absent         => exact List.suffix_rfl

theorem Closes.suffix (h : Closes body inner rest) : rest <:+ body := by
  rw [h.split]
  exact (List.suffix_cons ')' rest).trans (List.suffix_append _ _)

theorem Reading.suffix (h : Reading s cmd? rest) : rest <:+ s := by
  cases h
  case elsewhere           => exact List.suffix_cons _ _
  case unclosed            => exact List.suffix_append _ _
  case loose h _           => exact h.suffix.trans (List.suffix_append _ _)
  case refused h _ hr | taken h _ hr =>
    exact hr.suffix.trans <| (List.suffix_cons _ _).trans <| h.suffix.trans (List.suffix_append _ _)

theorem Reading.length_lt (h : Reading s cmd? rest) : rest.length < s.length := by
  have := length_readCall_lt h.ne_nil
  rwa [h.eq] at this

@[elab_as_elim]
theorem scan_induction {motive : List Char → Prop} (nil : motive [])
    (step : ∀ s cmd? rest, Reading s cmd? rest → motive rest → motive s) (s : List Char) : motive s := by
  induction h : s.length using Nat.strongRecOn generalizing s
  case ind n ih =>
    by_cases hs : s = []
    case pos => exact hs ▸ nil
    case neg =>
      have ⟨cmd?, rest, hr⟩ := exists_reading hs
      exact step s cmd? rest hr (ih rest.length (h ▸ hr.length_lt) rest rfl)

-- The ends of the text at which the scan stops to look.
inductive Visits (text : List Char) : List Char → Prop
  | start : Visits text text
  | onward {s : List Char} {cmd? : Option Command} {rest : List Char} (h : Visits text s)
      (hr : Reading s cmd? rest) : Visits text rest

theorem Visits.suffix (h : Visits text s) : s <:+ text := by
  induction h
  case start          => exact List.suffix_rfl
  case onward hr ih   => exact hr.suffix.trans ih

-- A call that the scan comes across, followed to its closing parenthesis.
inductive Follows (text : List Char) : List Char → List Char → Prop
  | intro {v : Verb} {body inner rest : List Char} (hv : Visits text (opening v ++ body))
      (hc : Closes body inner rest) : Follows text (opening v ++ body) rest

/-! ## Why a call is no command -/

-- A call at `s` is a command that was found, part of what had been read before, or none that counts.
inductive Accounted (text : List Char) (found : List Occurrence) (s : List Char) : Prop
  | taken {o : Occurrence} (h : o ∈ found) (hs : o.start = place text s)
  | inside {t rest : List Char} (h : Follows text t rest) (h₁ : place text t < place text s)
      (h₂ : place text s < place text rest)
  | commented {t behind body rest : List Char} (h : Follows text t (';' :: behind))
      (hc : Commented behind body rest) (h₁ : place text (body ++ rest) ≤ place text s)
      (h₂ : place text s < place text rest)
  | unclosed {v : Verb} {body : List Char} (hs : s = opening v ++ body) (h : Unclosed body)
  | loose {v : Verb} {body inner rest : List Char} (hs : s = opening v ++ body)
      (h : Closes body inner rest) (hn : rest.head? ≠ some ';')
  | refused {v : Verb} {body inner behind : List Char} (hs : s = opening v ++ body)
      (h : Closes body inner (';' :: behind)) (ha : ¬v.accepts (splitArguments inner).length)

theorem Accounted.mono (h : Accounted text found s) (hs : found ⊆ more) : Accounted text more s := by
  cases h
  case taken h hs'         => exact .taken (hs h) hs'
  case inside h h₁ h₂      => exact .inside h h₁ h₂
  case commented h hc h₁ h₂ => exact .commented h hc h₁ h₂
  case unclosed hs h       => exact .unclosed hs h
  case loose hs h hn       => exact .loose hs h hn
  case refused hs h ha     => exact .refused hs h ha

-- What stands at the parenthesis or before is inside the call.
theorem Visits.follows (hv : Visits text (opening v ++ body)) (hc : Closes body inner rest)
    (ht : t <:+ body) : t <:+ rest ∨ Accounted text found t := by
  by_cases hl : t.length ≤ rest.length
  case pos => exact .inl <| List.suffix_of_suffix_length_le ht hc.suffix hl
  case neg =>
    have hb : t.length < (opening v ++ body).length := by
      have := ht.length_le
      simp only [opening, List.length_append, List.length_cons]
      omega
    refine .inr <| .inside (.intro hv hc) (place_lt hv.suffix hb) (place_lt ?_ (by omega))
    exact ht.trans <| (List.suffix_append _ _).trans hv.suffix

-- What stands behind the semicolon and before the end of its line is inside the comment.
theorem Visits.comments {reason : String} (hv : Visits text (opening v ++ body))
    (hc : Closes body inner (';' :: behind)) (hr : Reason behind reason rest)
    (ho : opening w <+: t) (ht : t <:+ ';' :: behind) : t <:+ rest ∨ Accounted text found t := by
  have hh := head?_of_opening ho
  have ht := suffix_of_head (a := [';']) ht hh (by simp)
  cases hr
  case absent => exact .inl ht
  case comment com h =>
    obtain ⟨blanks, rfl, hb⟩ := h.start
    have ht : t <:+ com ++ rest := by
      refine suffix_of_head (a := blanks ++ ['/', '/']) (by simpa using ht) hh ?_
      simp only [List.mem_append, List.mem_cons, List.not_mem_nil, or_false]
      rintro (hm | hm)
      · simpa using hb _ hm
      · simp at hm
    by_cases hl : t.length ≤ rest.length
    case pos => exact .inl <| List.suffix_of_suffix_length_le ht (List.suffix_append _ _) hl
    case neg =>
      refine .inr <| .commented (.intro hv hc) h (place_le ht.length_le) (place_lt ?_ (by omega))
      exact ht.trans <| h.suffix.trans <| (List.suffix_cons _ _).trans <| hc.suffix.trans <|
        (List.suffix_append _ _).trans hv.suffix

theorem Visits.accounts (hv : Visits text s) (hr : Reading s cmd? rest) (ho : opening w <+: t)
    (ht : t <:+ s) :
    t <:+ rest ∨ Accounted text (cmd?.map (⟨place text s, ·⟩)).toList t := by
  cases hr
  case elsewhere h =>
    obtain rfl | ht := List.suffix_cons_iff.mp ht
    · exact absurd ho (h w)
    · exact .inl ht
  all_goals obtain rfl | hb := suffix_opening ho ht
  case unclosed.inl h => exact .inr <| .unclosed rfl h
  case unclosed.inr => exact .inl hb
  case loose.inl h hn => exact .inr <| .loose rfl h hn
  case loose.inr h hn => exact hv.follows h hb
  case refused.inl h ha hr => exact .inr <| .refused rfl h ha
  case taken.inl h ha hr => exact .inr <| .taken (List.mem_singleton.mpr rfl) rfl
  case refused.inr h _ hr | taken.inr h _ hr =>
    obtain hs | ha := hv.follows h hb
    · exact hv.comments h hr ho hs
    · exact .inr ha

theorem Visits.complete (hv : Visits text s) (ho : opening w <+: t) (ht : t <:+ s) :
    Accounted text (occurrences text.length s) t := by
  induction s using scan_induction
  case nil =>
    obtain ⟨r, rfl⟩ := ho
    simp [opening] at ht
  case step s cmd? rest hr ih =>
    rw [hr.occurrences]
    obtain ht | ha := hv.accounts hr ho ht
    · exact (ih (hv.onward hr) ht).mono (List.subset_append_right _ _)
    · exact ha.mono (List.subset_append_left _ _)

/-! ## Where the commands stand -/

-- The command is what the text has at its place.
structure Taken (text : List Char) (o : Occurrence) (inner behind : List Char) : Prop where
  span   : text.drop o.start = o.command.call.toList ++ behind
  form   : o.command.call.toList = opening o.command.verb ++ inner ++ [')', ';']
  closes : Closes (inner ++ ')' :: ';' :: behind) inner (';' :: behind)
  args   : o.command.args = splitArguments inner
  arity  : o.command.verb.accepts o.command.args.length
  reason : ∃ rest, Reason behind o.command.reason rest

-- The second command begins behind the first one and its comment.
structure Precedes (text : List Char) (a b : Occurrence) : Prop where
  starts  : a.start < b.start
  span    : a.start + a.command.call.length ≤ b.start
  comment : ∀ body rest, Commented (text.drop (a.start + a.command.call.length)) body rest →
    place text rest ≤ b.start

theorem exists_visit (hv : Visits text s) (h : o ∈ occurrences text.length s) :
    ∃ t rest, Visits text t ∧ t <:+ s ∧ o.start = place text t ∧ Reading t (some o.command) rest := by
  induction s using scan_induction
  case nil => simp [occurrences_nil] at h
  case step s cmd? rest hr ih =>
    rw [hr.occurrences, List.mem_append] at h
    obtain h | h := h
    · obtain ⟨cmd, rfl, rfl⟩ : ∃ cmd, cmd? = some cmd ∧ ⟨place text s, cmd⟩ = o := by
        simpa [place] using h
      exact ⟨s, rest, hv, List.suffix_rfl, rfl, hr⟩
    · obtain ⟨t, r, hv, ht, h⟩ := ih (hv.onward hr) h
      exact ⟨t, r, hv, ht.trans hr.suffix, h⟩

theorem taken_of_reading {cmd : Command} (hs : s <:+ text) (hr : Reading s (some cmd) rest) :
    ∃ inner behind, Taken text ⟨place text s, cmd⟩ inner behind ∧ Reason behind cmd.reason rest ∧
      place text behind = place text s + cmd.call.length := by
  cases hr
  case taken v body inner behind reason h ha hr =>
    have hb := h.split
    have he : opening v ++ body = (callText v inner).toList ++ behind := by
      simp [callText, hb]
    refine ⟨inner, behind, ⟨?_, ?_, hb ▸ h, rfl, ha, rest, hr⟩, hr, ?_⟩
    · rw [drop_place hs, he]
    · simp [callText]
    · rw [he] at hs ⊢
      rw [place_append hs, String.length_toList]

theorem Visits.exists_taken (hv : Visits text s) (h : o ∈ occurrences text.length s) :
    ∃ inner behind, Taken text o inner behind := by
  have ⟨t, rest, hv, _, hs, hr⟩ := exists_visit hv h
  have ⟨inner, behind, hk, _⟩ := taken_of_reading hv.suffix hr
  have he : (⟨place text t, o.command⟩ : Occurrence) = o := hs ▸ rfl
  exact ⟨inner, behind, he ▸ hk⟩

theorem Visits.precedes {cmd : Command} (hv : Visits text s) (hr : Reading s (some cmd) rest)
    (h : o ∈ occurrences text.length rest) : Precedes text ⟨place text s, cmd⟩ o := by
  have ⟨t, _, _, ht, ho, _⟩ := exists_visit (hv.onward hr) h
  have ⟨inner, behind, hk, hn, hp⟩ := taken_of_reading hv.suffix hr
  have hle : place text rest ≤ o.start := ho ▸ place_le ht.length_le
  have hlt : place text s < place text rest := place_lt hv.suffix hr.length_lt
  have hb : place text behind ≤ place text rest := place_le hn.suffix.length_le
  refine ⟨by simp only; omega, by simp only; omega, fun body r hc => ?_⟩
  have hd : text.drop (place text s + cmd.call.length) = behind := by
    rw [← List.drop_drop, hk.span, List.drop_left' String.length_toList]
  rw [hd] at hc
  have he := (readReason_of_commented hc).symm.trans hn.eq
  exact (Prod.mk.inj he).2 ▸ hle

theorem Visits.ordered (hv : Visits text s) :
    (occurrences text.length s).Pairwise (Precedes text) := by
  induction s using scan_induction
  case nil => simp [occurrences_nil]
  case step s cmd? rest hr ih =>
    rw [hr.occurrences]
    cases cmd?
    case none     => exact ih (hv.onward hr)
    case some cmd => exact List.pairwise_cons.mpr ⟨fun o ho => hv.precedes hr ho, ih (hv.onward hr)⟩

/-! ## The account -/

-- What the search for a closing parenthesis reads.
def scanned (body : List Char) : List Char :=
  match closing? {} 0 body with
  | some (inner, _) => inner ++ [')']
  | none => body

theorem openParens_nonneg {p : List Char} (h : p <+: scanned body) : 0 ≤ openParens ('(' :: p) := by
  unfold scanned at h
  split at h
  case h_1 inner rest hc =>
    have hc := closes_iff.mpr hc
    obtain rfl | h := List.prefix_concat_iff.mp h
    · exact Int.le_of_eq hc.back.symm
    · exact Int.le_of_lt (hc.first p h)
  case h_2 hc => exact Int.le_of_lt (unclosed_iff.mpr hc p h)

structure Account (text : List Char) (found : List Occurrence) : Prop where
  ordered  : found.Pairwise (Precedes text)
  sound    : ∀ o ∈ found, ∃ inner behind, Taken text o inner behind
  complete : ∀ v s, s <:+ text → opening v <+: s → Accounted text found s
  counter  : ∀ v body, opening v ++ body <:+ text → ∀ p, p <+: scanned body → 0 ≤ openParens ('(' :: p)

theorem extract_accounts (text : String) :
    ∃ found, extract text = found.map (·.command) ∧ Account text.toList found := by
  refine ⟨occurrences text.toList.length text.toList, by rw [String.length_toList]; rfl, ?_⟩
  exact {
    ordered  := Visits.start.ordered
    sound    := fun _ ho => Visits.start.exists_taken ho
    complete := fun _ _ hs ho => Visits.start.complete ho hs
    counter  := fun _ _ _ _ hp => openParens_nonneg hp }

end Storyworld.Command
