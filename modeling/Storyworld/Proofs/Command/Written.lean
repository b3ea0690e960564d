import Mathlib.Data.List.Infix
import Storyworld.Proofs.Command.Argument
import Storyworld.Proofs.Command.Call

/-!
Commands that were written down are found again: in a text that is made of commands, their reasons and
prose between them, the scan finds these commands, and it takes nothing else for one.
-/

namespace Storyworld.Command

variable {v : Verb} {c : Char} {s t p : List Char} {whole : Nat} {args : List (List Char)}

-- Text in which no command begins.
def IsProse (p : List Char) : Prop :=
  ¬['_', '.'] <:+: p

instance : Decidable (IsProse p) :=
  inferInstanceAs (Decidable ¬_)

theorem IsProse.tail (h : IsProse (c :: p)) : IsProse p :=
  fun hp => h <| List.infix_cons hp

theorem IsProse.newline (h : IsProse p) : IsProse ('\n' :: p) := by
  intro hp
  obtain hp | hp := List.infix_cons_iff.mp hp
  · simp at hp
  · exact h hp

theorem IsProse.not_opening (h : IsProse (c :: p)) (ht : t.head? ≠ some '.') :
    ¬opening v <+: c :: (p ++ t) := by
  rintro ⟨r, hr⟩
  obtain ⟨rfl, he⟩ := List.cons.inj hr
  cases p
  case nil      => exact ht <| (congrArg List.head? he).symm
  case cons d p =>
    obtain ⟨rfl, -⟩ := List.cons.inj he
    exact h ⟨[], p, rfl⟩

theorem IsProse.occurrences (h : IsProse p) (ht : t.head? ≠ some '.') :
    occurrences whole (p ++ t) = Command.occurrences whole t := by
  induction p
  case nil          => rfl
  case cons c p ih  =>
    have hr : Reading (c :: (p ++ t)) none (p ++ t) := .elsewhere fun _ => h.not_opening ht
    rw [List.cons_append, hr.occurrences, ih h.tail]
    rfl

def StartsComment (s : List Char) : Prop :=
  ['/', '/'] <+: s.dropWhile fun c => c == ' ' || c == '\t'

instance : Decidable (StartsComment s) :=
  inferInstanceAs (Decidable (_ <+: _))

theorem Commented.startsComment {body rest : List Char} (h : Commented s body rest) : StartsComment s := by
  obtain ⟨blanks, rfl, hb⟩ := h.start
  rw [StartsComment, List.dropWhile_append_of_pos (by simpa using hb)]
  simp

-- A command behind the prose adds nothing to the start of a comment.
theorem StartsComment.of_append (h : StartsComment (s ++ t)) (ht : ∀ c, t.head? = some c → c = '_') :
    StartsComment s := by
  induction s
  case nil          =>
    cases t
    case nil        => exact h
    case cons c t   =>
      obtain rfl := ht c rfl
      simp [StartsComment] at h
  case cons c s ih  =>
    by_cases hc : c = ' ' ∨ c = '\t'
    case pos =>
      have hs : ∀ r, StartsComment (c :: r) ↔ StartsComment r := fun r => by
        simp [StartsComment, hc]
      exact (hs s).mpr <| ih <| (hs (s ++ t)).mp h
    case neg =>
      have hs : ∀ r, StartsComment (c :: r) ↔ c = '/' ∧ r.head? = some '/' := fun r => by
        have hc : (c == ' ' || c == '\t') = false := by simpa using hc
        rw [StartsComment, List.dropWhile_cons_of_neg (by simp [hc])]
        cases r <;> simp [eq_comm]
      obtain ⟨hc, hh⟩ := (hs (s ++ t)).mp h
      refine (hs s).mpr ⟨hc, ?_⟩
      cases s
      case nil => cases ht _ hh
      case cons => exact hh

-- A command to be written, and the prose that follows it.
structure Entry where
  verb   : Verb
  args   : List (List Char)
  reason : Option (List Char)
  prose  : List Char

namespace Entry

def inner (e : Entry) : List Char :=
  [',', ' '].intercalate e.args

def comment (e : Entry) : List Char :=
  match e.reason with
  | some r => '/' :: '/' :: (r ++ ['\n'])
  | none => []

def write (e : Entry) : List Char :=
  (callText e.verb e.inner).toList ++ e.comment ++ e.prose

def command (e : Entry) : Command where
  verb   := e.verb
  call   := callText e.verb e.inner
  args   := e.args.map .ofList
  reason := .ofList <| Text.trim <| e.reason.getD []

structure Valid (e : Entry) : Prop where
  args    : ∀ a ∈ e.args, IsArgument a
  arity   : e.verb.accepts e.args.length
  oneLine : ∀ r ∈ e.reason, OneLine r
  prose   : IsProse e.prose
  apart   : e.reason = none → ¬StartsComment e.prose

instance {e : Entry} : Decidable e.Valid :=
  decidable_of_iff
    ((∀ a ∈ e.args, IsArgument a) ∧ e.verb.accepts e.args.length ∧
      (∀ r ∈ e.reason, OneLine r) ∧ IsProse e.prose ∧
      (e.reason = none → ¬StartsComment e.prose))
    ⟨fun ⟨ha, hn, hr, hp, hs⟩ => ⟨ha, hn, hr, hp, hs⟩,
      fun h => ⟨h.args, h.arity, h.oneLine, h.prose, h.apart⟩⟩

end Entry

theorem head?_writes {entries : List Entry} :
    ∀ c, (entries.flatMap Entry.write).head? = some c → c = '_' := by
  cases entries <;> simp [Entry.write, callText, opening, eq_comm]

theorem head?_writes_ne {entries : List Entry} : (entries.flatMap Entry.write).head? ≠ some '.' :=
  fun h => absurd (head?_writes _ h) (by decide)

theorem splitArguments_join (hne : args ≠ []) (h : ∀ a ∈ args, IsArgument a) :
    splitArguments ([',', ' '].intercalate args) = args.map .ofList :=
  splitFrom_join (by simp) hne h

namespace Entry.Valid

variable {e : Entry} {entries : List Entry}

theorem args_ne_nil (h : e.Valid) : e.args ≠ [] := by
  intro hn
  have := h.arity
  rw [hn] at this
  revert this
  cases e.verb <;> decide

-- The scan goes on behind the command, and at the end of the line if there is a reason.
theorem reading (h : e.Valid) (ht : ∀ c, t.head? = some c → c = '_') :
    ∃ p, Reading (e.write ++ t) (some e.command) (p ++ t) ∧ IsProse p := by
  have hc : Closes (e.inner ++ ')' :: ';' :: (e.comment ++ e.prose ++ t)) e.inner
      (';' :: (e.comment ++ e.prose ++ t)) :=
    (balanced_join h.args).closes
  have hs := splitArguments_join h.args_ne_nil h.args
  have ha : e.verb.accepts (splitArguments e.inner).length := by
    rw [inner, hs, List.length_map]
    exact h.arity
  have hw : e.write ++ t = opening e.verb ++ (e.inner ++ ')' :: ';' :: (e.comment ++ e.prose ++ t)) := by
    simp [write, callText]
  have hr (reason : String) (rest : List Char) := @Reading.taken _ _ _ _ rest reason hc ha
  rw [inner, hs, ← inner, ← hw] at hr
  cases he : e.reason
  case none =>
    have hn : ∀ body rest, ¬Commented (e.prose ++ t) body rest := fun _ _ hcm =>
      h.apart he <| hcm.startsComment.of_append ht
    have := hr _ _ (by simpa [comment, he] using .absent hn)
    exact ⟨e.prose, by simpa [command, he] using this, h.prose⟩
  case some r =>
    have hcm : Commented (e.comment ++ e.prose ++ t) r ('\n' :: (e.prose ++ t)) :=
      { start := ⟨[], by simp [comment, he], by simp⟩
        line  := h.oneLine r he
        stop  := by simp }
    have := hr _ _ (.comment hcm)
    exact ⟨'\n' :: e.prose, by simpa [command, he] using this, h.prose.newline⟩

end Entry.Valid

theorem occurrences_writes {entries : List Entry} (h : ∀ e ∈ entries, e.Valid) :
    (occurrences whole (entries.flatMap Entry.write)).map (·.command) = entries.map Entry.command := by
  induction entries
  case nil => simp [occurrences_nil]
  case cons e entries ih =>
    have ⟨he, hs⟩ := List.forall_mem_cons.mp h
    obtain ⟨p, hr, hp⟩ := he.reading (@head?_writes entries)
    rw [List.flatMap_cons, hr.occurrences, hp.occurrences head?_writes_ne]
    simp [ih hs]

theorem extract_writes {lead : List Char} {entries : List Entry} (hl : IsProse lead)
    (h : ∀ e ∈ entries, e.Valid) :
    extract (.ofList (lead ++ entries.flatMap Entry.write)) = entries.map Entry.command := by
  rw [extract, String.toList_ofList, hl.occurrences head?_writes_ne, occurrences_writes h]

def foreword : List Char :=
  "\"It (still) rains, __they say: ".toList

-- Brackets, commas and whole commands stand inside quotes and inside a reason; a quote is escaped.
def travelogue : List Entry := [
  { verb   := .set
    args   := ["'hero.mood'".toList, "\x7b\"say\": \"no, (not _.add('a', 1); now\", xs: [1, [2, 3]]\x7d".toList]
    reason := some " lost _.delete('duel'); again ".toList
    prose  := "\n) Their friend isn't here; _ waits.".toList },
  { verb   := .add
    args   := ["`it\\`s, (late`".toList, "max(1, 2)".toList]
    reason := none
    prose  := "\t/ no reason, _but/ _".toList },
  { verb   := .unset
    args   := ["bag[0]".toList]
    reason := some []
    prose  := [] }]

theorem travelogue_extract :
    IsProse foreword ∧ (∀ e ∈ travelogue, e.Valid) ∧
      extract (.ofList (foreword ++ travelogue.flatMap Entry.write)) = travelogue.map Entry.command := by
  have hf : IsProse foreword := by decide +kernel
  have ht : ∀ e ∈ travelogue, e.Valid := by decide +kernel
  exact ⟨hf, ht, extract_writes hf ht⟩

end Storyworld.Command
