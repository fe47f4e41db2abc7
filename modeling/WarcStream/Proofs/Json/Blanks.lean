import WarcStream.Proofs.Json.Soundness
import Mathlib.Data.List.Induction
/-!
# Blanks around a text

A text is a core with blanks around it, where the core neither starts nor ends
with a blank and is a text of the same value (`Spells.hasCore`). So blanks
can be taken away from a text as well as put around it, and what is no text
without them is none with them: a string that is cut open, or a number that may
not end, stays so (`parse_blanks_iff`).
-/

namespace WarcStream.Json

variable {xs ys text before behind : Bytes} {b : UInt8} {depth : Nat} {v w : Value} {n : Numeral}

/-- No blank at either end, and something between them. -/
structure Trimmed (text : Bytes) : Prop where
  start : ∃ b rest, text = b :: rest ∧ isSpace b = false
  stop : ∃ rest b, text = rest ++ [b] ∧ isSpace b = false

/-- What is between two octets that are no blanks. -/
theorem trimmed_between (first last : UInt8) (inner : Bytes) (hfirst : isSpace first = false)
    (hlast : isSpace last = false) : Trimmed (first :: (inner ++ [last])) :=
  ⟨⟨first, inner ++ [last], rfl, hfirst⟩, ⟨first :: inner, last, rfl, hlast⟩⟩

/-! ## Numbers -/

/-- A blank is no part of a number. -/
theorem Numeral.step_ne_more_of_isSpace (hb : isSpace b = true) (next : Numeral) :
    n.step b ≠ .more next := by
  obtain ⟨hdigit, hpoint, hmark⟩ := endsNumber_of_isSpace hb
  have hzero : b ≠ 0x30 := by
    rintro rfl
    cases hdigit
  have hplus : b ≠ 0x2b := by
    rintro rfl
    cases hb
  have hminus : b ≠ 0x2d := by
    rintro rfl
    cases hb
  cases n with
  | minus => simp [step, first, hzero, hdigit]
  | point | exponentSign => simp [step, hdigit]
  | exponentMark => simp [step, hdigit, hplus, hminus]
  | zero | integer | longInteger | fraction | longFraction | exponent | vanished =>
    simp [step, hdigit, hpoint, hmark]

/-- A number has no blanks around it. -/
theorem Numeral.Spells.trimmed (h : n.Spells text) : Trimmed text := by
  constructor
  · obtain ⟨b, rest, -, rfl, hspace, -⟩ := h.reaches []
    exact ⟨b, rest, rfl, hspace⟩
  · cases h with
    | minus => exact ⟨[], 0x2d, rfl, rfl⟩
    | @first b n hfirst => exact ⟨[], b, rfl, (startValue_of_first [] hfirst).1⟩
    | @more text b n next _ hstep =>
      cases hspace : isSpace b with
      | false => exact ⟨text, b, rfl, hspace⟩
      | true => exact absurd hstep (step_ne_more_of_isSpace hspace _)

/-! ## Texts -/

theorem Quotes.trimmed {s : String} (h : Quotes text s) : Trimmed text := by
  obtain ⟨-, -⟩ := h
  exact trimmed_between 0x22 0x22 _ rfl rfl

/-- The octets are a text of the value with blanks around it. -/
inductive HasCore (depth : Nat) (w : Value) : Bytes → Prop
  | intro {before core behind : Bytes} :
      Blank before → Blank behind → Trimmed core → Spells depth core (.value w) →
      HasCore depth w (before ++ (core ++ behind))

/-- A text with no blanks around it is its own core. -/
theorem hasCore_of_trimmed (hcore : Trimmed text) (h : Spells depth text (.value w)) :
    HasCore depth w text := by
  have hwhole := HasCore.intro blank_nil blank_nil hcore h
  rwa [List.append_nil] at hwhole

/-- **A text is a core with blanks around it.** -/
theorem Spells.hasCore (h : Spells depth text (.value w)) : HasCore depth w text := by
  generalize hpart : Part.value w = part at h
  induction h with
  | null =>
    cases hpart
    exact hasCore_of_trimmed (trimmed_between 0x6e 0x6c [0x75, 0x6c] rfl rfl) .null
  | yes =>
    cases hpart
    exact hasCore_of_trimmed (trimmed_between 0x74 0x65 [0x72, 0x75] rfl rfl) .yes
  | no =>
    cases hpart
    exact hasCore_of_trimmed (trimmed_between 0x66 0x65 [0x61, 0x6c, 0x73] rfl rfl) .no
  | number htext hfinish =>
    cases hpart
    exact hasCore_of_trimmed htext.trimmed (.number htext hfinish)
  | string hquotes =>
    cases hpart
    exact hasCore_of_trimmed hquotes.trimmed (.string hquotes)
  | noItems hblank =>
    cases hpart
    exact hasCore_of_trimmed (trimmed_between 0x5b 0x5d _ rfl rfl) (.noItems hblank)
  | array hitems =>
    cases hpart
    exact hasCore_of_trimmed (trimmed_between 0x5b 0x5d _ rfl rfl) (.array hitems)
  | noEntries hblank =>
    cases hpart
    exact hasCore_of_trimmed (trimmed_between 0x7b 0x7d _ rfl rfl) (.noEntries hblank)
  | object hentries =>
    cases hpart
    exact hasCore_of_trimmed (trimmed_between 0x7b 0x7d _ rfl rfl) (.object hentries)
  | @before depth b xs _ hb _ ih =>
    obtain ⟨hbefore, hbehind, htrimmed, hcore⟩ := ih hpart
    exact .intro (List.forall_mem_cons.2 ⟨hb, hbefore⟩) hbehind htrimmed hcore
  | @behind depth b xs _ hb _ ih =>
    obtain ⟨hbefore, hbehind, htrimmed, hcore⟩ := ih hpart
    have hmore : Blank (_ ++ [b]) :=
      List.forall_mem_append.2 ⟨hbehind, List.forall_mem_singleton.2 hb⟩
    rw [List.append_assoc, List.append_assoc]
    exact .intro hbefore hmore htrimmed hcore
  | item | items | entry | entries => cases hpart

/-- A blank in front of a text can be taken away, -/
theorem Spells.of_cons (h : Spells depth (b :: xs) (.value w)) (hb : isSpace b = true) :
    Spells depth xs (.value w) := by
  generalize hsplit : b :: xs = text at h
  obtain @⟨before, core, behind, hbefore, hbehind, htrimmed, hcore⟩ := h.hasCore
  match before with
  | [] =>
    obtain ⟨c, rest, rfl, hc⟩ := htrimmed.start
    obtain ⟨rfl, -⟩ := List.cons.inj hsplit
    rw [hb] at hc
    cases hc
  | c :: before =>
    obtain ⟨rfl, rfl⟩ := List.cons.inj hsplit
    exact (hcore.blanks hbehind).behind_blanks fun c hc => hbefore c (List.mem_cons_of_mem _ hc)

/-- and so can one behind it. -/
theorem Spells.of_concat (h : Spells depth (xs ++ [b]) (.value w)) (hb : isSpace b = true) :
    Spells depth xs (.value w) := by
  generalize hsplit : xs ++ [b] = text at h
  obtain @⟨before, core, behind, hbefore, hbehind, htrimmed, hcore⟩ := h.hasCore
  rcases List.eq_nil_or_concat behind with rfl | ⟨behind, c, rfl⟩
  · obtain ⟨rest, c, rfl, hc⟩ := htrimmed.stop
    rw [List.append_nil, ← List.append_assoc] at hsplit
    obtain ⟨-, hlast⟩ := List.append_inj' hsplit rfl
    obtain rfl := List.singleton_inj.1 hlast
    rw [hb] at hc
    cases hc
  · rw [List.concat_eq_append, ← List.append_assoc, ← List.append_assoc] at hsplit
    obtain ⟨rfl, -⟩ := List.append_inj' hsplit rfl
    rw [List.append_assoc]
    refine (hcore.blanks fun c hc => hbehind c ?_).behind_blanks hbefore
    rw [List.concat_eq_append]
    exact List.mem_append_left _ hc

theorem spells_blanks_iff (hbefore : Blank before) (hbehind : Blank behind) :
    Spells depth (before ++ (text ++ behind)) (.value w) ↔ Spells depth text (.value w) := by
  constructor
  · intro h
    have hfront : Spells depth (text ++ behind) (.value w) := by
      induction before with
      | nil => exact h
      | cons b before ih =>
        obtain ⟨hb, hrest⟩ := List.forall_mem_cons.1 hbefore
        exact ih hrest (h.of_cons hb)
    induction behind using List.reverseRecOn with
    | nil => rwa [List.append_nil] at hfront
    | append_singleton behind b ih =>
      obtain ⟨hrest, hb⟩ := List.forall_mem_append.1 hbehind
      rw [← List.append_assoc] at hfront
      have hless := hfront.of_concat (hb b List.mem_cons_self)
      exact ih hrest (hless.behind_blanks hbefore) hless
  · intro h
    exact (h.blanks hbehind).behind_blanks hbefore

/-- **Blanks around a text change nothing**, whether it is a text of a value or none. -/
theorem parse_blanks_iff (hbefore : Blank before) (hbehind : Blank behind) :
    parse (before ++ (text ++ behind)) = .ok v ↔ parse text = .ok v := by
  simp only [parse_eq_ok_iff, spells_blanks_iff hbefore hbehind]

end WarcStream.Json
