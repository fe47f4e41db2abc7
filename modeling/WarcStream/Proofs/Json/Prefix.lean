import Mathlib.Tactic.SplitIfs
import WarcStream.Proofs.Json.Roundtrip
/-!
# JSON text cut short

The text of an object means nothing until its closing brace has been read
(`parse_of_append_eq_print`). The invariant is `Enclosed`: once the opening
brace has been read, a container is open or a part of one is under way, and it
stays so until the outermost value has ended; behind that nothing but blanks
may come. No printed text holds a control character (`le_of_mem_print`), so no
delimiter can stand inside one.
-/

namespace WarcStream.Json

variable {s t : State} {stack : List Open} {xs ys : Bytes} {b : UInt8} {v : Value} {mode : Mode}

/-- A string is read for a key. -/
def Role.isKey : Role → Bool
  | .key _ => true
  | .value => false

/-- A part of a container is under way that is not one of its values. -/
def Mode.isInner : Mode → Bool
  | .listStart | .afterItem _ | .objectStart | .objectNext _ | .afterKey _ _ | .afterEntry _ => true
  | .string role _ | .escape role _ | .unit role _ _ _ | .pair role _ _ _ => role.isKey
  | .value | .listNext | .afterAll _ | .word _ _ | .number _ => false

/-- The outermost value has ended. -/
def Mode.isAfterAll : Mode → Bool
  | .afterAll _ => true
  | _ => false

/-- The machine is inside a container. -/
def State.Enclosed (s : State) : Prop :=
  s.mode.isInner = true ∨ s.stack ≠ [] ∧ s.mode.isAfterAll = false

/-- The machine is inside a container or behind the outermost value. -/
def State.Begun (s : State) : Prop := s.Enclosed ∨ ∃ v, s = ⟨[], .afterAll v⟩

theorem begun_of_inner (hmode : mode.isInner = true) : State.Begun ⟨stack, mode⟩ :=
  .inl (.inl hmode)

theorem begun_of_stack (hstack : stack ≠ []) (hmode : mode.isAfterAll = false) :
    State.Begun ⟨stack, mode⟩ :=
  .inl (.inr ⟨hstack, hmode⟩)

/-- Inside a string, which is a key or stands inside a container. -/
theorem begun_of_role {role : Role} (hrole : role.isKey = true ∨ stack ≠ [])
    (hmode : mode.isInner = role.isKey) (hopen : mode.isAfterAll = false) :
    State.Begun ⟨stack, mode⟩ := by
  rcases hrole with hkey | hstack
  · exact begun_of_inner (hmode.trans hkey)
  · exact begun_of_stack hstack hopen

theorem begun_settle (stack : List Open) (v : Value) : (settle stack v).Begun := by
  rcases stack with _ | ⟨_ | _, rest⟩
  · exact .inr ⟨v, rfl⟩
  · exact begun_of_inner rfl
  · exact begun_of_inner rfl

theorem State.Enclosed.stack_ne (h : State.Enclosed ⟨stack, mode⟩) (hmode : mode.isInner = false) :
    stack ≠ [] := by
  rcases h with h | h
  · simp [hmode] at h
  · exact h.1

theorem State.Enclosed.not_afterAll : ¬ State.Enclosed ⟨stack, .afterAll v⟩ := by
  rintro (h | h)
  · simp [Mode.isInner] at h
  · simp [Mode.isAfterAll] at h

/-- Inside a container the text may not end. -/
theorem State.Enclosed.finish_ne (h : s.Enclosed) : s.finish ≠ .ok v := by
  obtain ⟨stack, mode⟩ := s
  cases mode with
  | afterAll w => exact absurd h not_afterAll
  | number n =>
    obtain ⟨first, rest, rfl⟩ := List.exists_cons_of_ne_nil (h.stack_ne rfl)
    simp only [State.finish]
    cases n.finish with
    | error reason => simp
    | ok w => cases first <;> simp [settle]
  | _ => simp [State.finish]

/-! ## One octet -/

/-- The answer to an octet does not leave the outermost container, or it ends it. -/
def Keeps (answer : Except Failure State) : Prop := ∀ t, answer = .ok t → t.Begun

theorem keeps_ok (h : s.Begun) : Keeps (.ok s) := by
  rintro t ⟨rfl⟩
  exact h

theorem keeps_error (f : Failure) : Keeps (.error f) := by
  intro t h
  cases h

theorem keeps_startValue (hstack : stack ≠ []) : Keeps (startValue stack b) := by
  have hinside (mode : Mode) (hmode : mode.isAfterAll = false) : Keeps (.ok ⟨stack, mode⟩) :=
    keeps_ok (begun_of_stack hstack hmode)
  unfold startValue
  split_ifs
  · exact hinside _ rfl
  · exact hinside _ rfl
  · exact hinside _ rfl
  · exact hinside _ rfl
  · split
    · exact hinside _ rfl
    · exact keeps_error _
  · exact hinside _ rfl
  · exact hinside _ rfl
  · exact keeps_error _
  · exact hinside _ rfl
  · exact keeps_error _
  · exact keeps_error _

theorem keeps_between (hmode : mode.isInner = true) : Keeps (between stack b mode) := by
  have hsame : Keeps (.ok ⟨stack, mode⟩) := keeps_ok (begun_of_inner hmode)
  unfold between
  split
  · split_ifs
    · exact hsame
    · exact keeps_ok (begun_of_stack (List.cons_ne_nil _ _) rfl)
    · exact keeps_ok (begun_settle _ _)
    · exact keeps_error _
  · split_ifs
    · exact hsame
    · exact keeps_ok (begun_of_inner rfl)
    · exact keeps_ok (begun_settle _ _)
    · exact keeps_error _
  · split_ifs
    · exact hsame
    · exact keeps_error _

theorem keeps_endString (stack : List Open) (role : Role) (text : Bytes) :
    Keeps (endString stack role text) := by
  unfold endString
  split
  · exact keeps_error _
  · split
    · exact keeps_ok (begun_settle _ _)
    · exact keeps_ok (begun_of_inner rfl)

theorem keeps_endUnit {role : Role} (text : Bytes) (lead : Option Nat) (n : Nat)
    (hrole : role.isKey = true ∨ stack ≠ []) : Keeps (endUnit stack role text lead n) := by
  unfold endUnit
  split
  · split_ifs
    · exact keeps_error _
    · exact keeps_ok (begun_of_role hrole rfl rfl)
    · exact keeps_ok (begun_of_role hrole rfl rfl)
  · split_ifs
    · exact keeps_ok (begun_of_role hrole rfl rfl)
    · exact keeps_error _

theorem keeps_word (hstack : stack ≠ []) (rest : Bytes) (w : Value) (b : UInt8) :
    Keeps (State.step ⟨stack, .word rest w⟩ b) := by
  rcases rest with _ | ⟨next, _ | ⟨more, rest⟩⟩
  · exact keeps_ok (begun_settle _ _)
  · simp only [State.step]
    split_ifs
    · exact keeps_ok (begun_settle _ _)
    · exact keeps_error _
  · simp only [State.step]
    split_ifs
    · exact keeps_ok (begun_of_stack hstack rfl)
    · exact keeps_error _

/-- An octet that ends a number is placed behind its value, inside the same container. -/
theorem keeps_number (hstack : stack ≠ []) (n : Numeral) (b : UInt8) :
    Keeps (State.step ⟨stack, .number n⟩ b) := by
  obtain ⟨first, rest, rfl⟩ := List.exists_cons_of_ne_nil hstack
  simp only [State.step]
  split
  · exact keeps_ok (begun_of_stack hstack rfl)
  · exact keeps_error _
  · split
    · cases first with
      | list items => exact keeps_between rfl
      | object entries key => exact keeps_between rfl
    · exact keeps_error _

section Strings

variable {role : Role} (hrole : role.isKey = true ∨ stack ≠ []) (text : Bytes) (b : UInt8)

include hrole

theorem keeps_string : Keeps (State.step ⟨stack, .string role text⟩ b) := by
  simp only [State.step]
  split_ifs
  · exact keeps_endString _ _ _
  · exact keeps_ok (begun_of_role hrole rfl rfl)
  · exact keeps_error _
  · exact keeps_ok (begun_of_role hrole rfl rfl)

theorem keeps_escape : Keeps (State.step ⟨stack, .escape role text⟩ b) := by
  simp only [State.step]
  split_ifs
  · exact keeps_ok (begun_of_role hrole rfl rfl)
  · split
    · exact keeps_ok (begun_of_role hrole rfl rfl)
    · exact keeps_error _

theorem keeps_unit (lead : Option Nat) (digits : Bytes) :
    Keeps (State.step ⟨stack, .unit role text lead digits⟩ b) := by
  simp only [State.step]
  split_ifs
  · exact keeps_ok (begun_of_role hrole rfl rfl)
  · split
    · exact keeps_endUnit _ _ _ hrole
    · exact keeps_error _

theorem keeps_pair (lead : Nat) (marked : Bool) :
    Keeps (State.step ⟨stack, .pair role text lead marked⟩ b) := by
  simp only [State.step]
  split_ifs
  · exact keeps_ok (begun_of_role hrole rfl rfl)
  · exact keeps_error _
  · exact keeps_ok (begun_of_role hrole rfl rfl)
  · exact keeps_error _

end Strings

/-- **One octet** does not leave the outermost container, or it ends it. -/
theorem State.Enclosed.step (h : s.Enclosed) (b : UInt8) : Keeps (s.step b) := by
  have hsame : Keeps (.ok s) := keeps_ok (.inl h)
  obtain ⟨stack, mode⟩ := s
  cases mode with
  | value =>
    simp only [State.step]
    split_ifs
    · exact hsame
    · exact keeps_startValue (h.stack_ne rfl)
  | listStart =>
    simp only [State.step]
    split_ifs
    · exact hsame
    · exact keeps_ok (begun_settle _ _)
    · exact keeps_startValue (List.cons_ne_nil _ _)
  | listNext =>
    simp only [State.step]
    split_ifs
    · exact hsame
    · exact keeps_error _
    · exact keeps_startValue (h.stack_ne rfl)
  | objectStart =>
    simp only [State.step]
    split_ifs
    · exact hsame
    · exact keeps_ok (begun_settle _ _)
    · exact keeps_ok (begun_of_inner rfl)
    · exact keeps_error _
  | objectNext entries =>
    simp only [State.step]
    split_ifs
    · exact hsame
    · exact keeps_error _
    · exact keeps_ok (begun_of_inner rfl)
    · exact keeps_error _
  | afterKey entries key =>
    simp only [State.step]
    split_ifs
    · exact hsame
    · exact keeps_ok (begun_of_stack (List.cons_ne_nil _ _) rfl)
    · exact keeps_error _
  | afterItem items =>
    show Keeps (between stack b (.afterItem items))
    exact keeps_between rfl
  | afterEntry entries =>
    show Keeps (between stack b (.afterEntry entries))
    exact keeps_between rfl
  | afterAll w => exact absurd h not_afterAll
  | word rest w => exact keeps_word (h.stack_ne rfl) rest w b
  | number n => exact keeps_number (h.stack_ne rfl) n b
  | string role text => exact keeps_string (h.imp id And.left) text b
  | escape role text => exact keeps_escape (h.imp id And.left) text b
  | unit role text lead digits => exact keeps_unit (h.imp id And.left) text b lead digits
  | pair role text lead marked => exact keeps_pair (h.imp id And.left) text b lead marked

/-- Behind the outermost value nothing but blanks may come. -/
theorem step_afterAll (h : State.step ⟨[], .afterAll v⟩ b = .ok t) :
    isSpace b = true ∧ t = ⟨[], .afterAll v⟩ := by
  have hstep : State.step ⟨[], .afterAll v⟩ b =
      if isSpace b then .ok ⟨[], .afterAll v⟩ else fail .trailingCharacters := rfl
  rw [hstep] at h
  split at h
  · rename_i hspace
    exact ⟨hspace, (Except.ok.inj h).symm⟩
  · simp [fail] at h

theorem isSpace_of_run {consumed : Nat} (h : State.run ⟨[], .afterAll v⟩ xs consumed = .ok t) :
    ∀ b ∈ xs, isSpace b = true := by
  induction xs generalizing consumed with
  | nil => simp
  | cons b rest ih =>
    intro c hc
    rw [State.run] at h
    split at h
    · rename_i next hstep
      obtain ⟨hspace, rfl⟩ := step_afterAll hstep
      rcases List.mem_cons.1 hc with rfl | hc
      · exact hspace
      · exact ih h c hc
    · simp at h

/-- **Any number of octets** do not leave the outermost container, or they end it. -/
theorem State.Begun.run {consumed : Nat} (h : s.Begun) (hrun : s.run xs consumed = .ok t) :
    t.Begun := by
  induction xs generalizing s consumed with
  | nil =>
    obtain rfl := Except.ok.inj hrun
    exact h
  | cons b rest ih =>
    rw [State.run] at hrun
    split at hrun
    · rename_i next hstep
      refine ih ?_ hrun
      rcases h with h | ⟨v, rfl⟩
      · exact h.step b next hstep
      · exact .inr ⟨v, (step_afterAll hstep).2⟩
    · simp at hrun

theorem printEntries_eq_append (entries : List (String × Value)) :
    ∃ front, printEntries entries = front ++ [0x7d] := by
  induction entries with
  | nil => exact ⟨[], rfl⟩
  | cons entry rest ih =>
    obtain ⟨front, hfront⟩ := ih
    refine ⟨0x2c :: (printString entry.1 ++ 0x3a :: (print entry.2 ++ front)), ?_⟩
    rw [printEntries, hfront]
    simp only [List.cons_append, List.append_assoc]

/-- The text of an object stands between braces. -/
theorem print_object_eq (entries : List (String × Value)) :
    ∃ inner, print (.object entries) = 0x7b :: (inner ++ [0x7d]) := by
  match entries with
  | [] => exact ⟨[], rfl⟩
  | (key, v) :: rest =>
    obtain ⟨front, hfront⟩ := printEntries_eq_append rest
    refine ⟨printString key ++ 0x3a :: (print v ++ front), ?_⟩
    rw [print, hfront]
    simp only [List.append_assoc, List.cons_append]

/-- **An object cut short** is no JSON text, wherever it is cut. -/
theorem parse_of_append_eq_print {key : String → Prop} {depth : Nat}
    {entries : List (String × Value)} (hv : (Value.object entries).Plain key depth)
    (hdepth : depth ≤ maxDepth) (h : xs ++ ys = print (.object entries)) (hxs : xs ≠ [])
    (hys : ys ≠ []) : ∃ e, parse xs = .error e := by
  have hstart : ([] : List Open).length + depth ≤ maxDepth := by simpa using hdepth
  obtain ⟨u, hread, -⟩ := isRead_of_spells (spells_print hv) [] _ hstart (atValue_value [])
  have hwhole := hread 0
  rw [← h, State.run_append] at hwhole
  -- all of the text can be read, so the part that is there can
  match hpart : State.run ⟨[], .value⟩ xs 0 with
  | .error e => simp [hpart, Except.bind] at hwhole
  | .ok s =>
    rw [hpart] at hwhole
    have hrest : s.run ys (0 + xs.length) = .ok u := hwhole
    obtain ⟨inner, hprint⟩ := print_object_eq entries
    obtain ⟨b, more, rfl⟩ := List.exists_cons_of_ne_nil hxs
    have hbegun : s.Begun := by
      rw [hprint, List.cons_append] at h
      obtain ⟨rfl, -⟩ := List.cons.inj h
      have hobject : State.Begun ⟨[], .objectStart⟩ := .inl (.inl rfl)
      exact hobject.run hpart
    rcases hbegun with henclosed | ⟨v, rfl⟩
    · match hfinish : s.finish with
      | .ok v => exact absurd hfinish henclosed.finish_ne
      | .error reason =>
        refine ⟨.after (b :: more) reason, ?_⟩
        rw [parse, State.start, hpart]
        simp only [hfinish]
    · -- the closing brace is still to come, which is no blank
      have hlast : ys.getLast hys = 0x7d := by
        have hends : (b :: more ++ ys).getLast? = some 0x7d := by
          rw [h, hprint, ← List.cons_append, List.getLast?_concat]
        rw [List.getLast?_append, List.getLast?_eq_some_getLast hys, Option.some_or] at hends
        exact Option.some.inj hends
      have hspace := isSpace_of_run hrest _ (List.getLast_mem hys)
      rw [hlast] at hspace
      simp [isSpace] at hspace

/-! ## What a text is made of -/

theorem le_hexDigit {n : Nat} (h : n < 16) : 0x20 ≤ Bytes.hexDigit n := by
  have hall : ∀ n < 16, 0x20 ≤ Bytes.hexDigit n := by decide
  exact hall n h

theorem le_of_mem_escapeOctet {c : UInt8} (h : c ∈ escapeOctet b) : 0x20 ≤ c := by
  rcases escapeOctet_cases b with
    ⟨letter, hescape, -, -, hle⟩ | ⟨hlow, hescape⟩ | ⟨hescape, -, -, hle⟩
  · rw [hescape] at h
    simp only [List.mem_cons, List.not_mem_nil, or_false] at h
    rcases h with rfl | rfl
    · decide
    · exact hle
  · rw [hescape] at h
    simp only [List.mem_cons, List.not_mem_nil, or_false] at h
    rcases h with rfl | rfl | rfl | rfl | rfl | rfl
    · decide
    · decide
    · decide
    · decide
    · exact le_hexDigit (by omega)
    · exact le_hexDigit (by omega)
  · rw [hescape, List.mem_singleton] at h
    subst h
    exact UInt8.not_lt.1 hle

theorem le_of_mem_printString {string : String} (h : b ∈ printString string) : 0x20 ≤ b := by
  rw [printString, printOctets] at h
  rcases List.mem_cons.1 h with rfl | h
  · decide
  rcases List.mem_append.1 h with h | h
  · obtain ⟨c, -, hc⟩ := List.mem_flatMap.1 h
    exact le_of_mem_escapeOctet hc
  · rw [List.mem_singleton.1 h]
    decide

theorem le_of_mem_decimal {n : Nat} (h : b ∈ Bytes.decimal n) : 0x20 ≤ b := by
  have hdigit : ∀ n < 10, 0x20 ≤ digit n := by decide
  fun_induction Bytes.decimal n with
  | case1 n hn =>
    rw [List.mem_singleton.1 h]
    exact hdigit n hn
  | case2 n hn ih =>
    rcases List.mem_append.1 h with h | h
    · exact ih h
    · rw [List.mem_singleton.1 h]
      exact hdigit (n % 10) (Nat.mod_lt n (by decide))

theorem le_of_mem_printItems {items : List Value}
    (hitems : ∀ v ∈ items, ∀ b ∈ print v, 0x20 ≤ b) (h : b ∈ printItems items) : 0x20 ≤ b := by
  induction items with
  | nil =>
    rw [List.mem_singleton.1 h]
    decide
  | cons v rest ih =>
    rcases List.mem_cons.1 h with rfl | h
    · decide
    rcases List.mem_append.1 h with h | h
    · exact hitems v List.mem_cons_self b h
    · exact ih (fun w hw => hitems w (List.mem_cons_of_mem v hw)) h

theorem le_of_mem_printEntries {entries : List (String × Value)}
    (hentries : ∀ entry ∈ entries, ∀ b ∈ print entry.2, 0x20 ≤ b) (h : b ∈ printEntries entries) :
    0x20 ≤ b := by
  induction entries with
  | nil =>
    rw [List.mem_singleton.1 h]
    decide
  | cons entry rest ih =>
    rcases List.mem_cons.1 h with rfl | h
    · decide
    rcases List.mem_append.1 h with h | h
    · exact le_of_mem_printString h
    rcases List.mem_cons.1 h with rfl | h
    · decide
    rcases List.mem_append.1 h with h | h
    · exact hentries entry List.mem_cons_self b h
    · exact ih (fun e he => hentries e (List.mem_cons_of_mem entry he)) h

/-- A text of a few fixed characters is looked through. -/
theorem le_of_all (hall : (xs.all fun b => decide (0x20 ≤ b)) = true) (h : b ∈ xs) : 0x20 ≤ b :=
  of_decide_eq_true (List.all_eq_true.1 hall b h)

/-- **A printed text holds no control character**, so no delimiter of a frame. -/
theorem le_of_mem_print {key : String → Prop} {depth : Nat} (hv : v.Plain key depth)
    (h : b ∈ print v) : 0x20 ≤ b := by
  induction hv generalizing b with
  | null =>
    have hall : ((print .null).all fun b => decide (0x20 ≤ b)) = true := by decide
    exact le_of_all hall h
  | bool c =>
    have hall : ∀ c, ((print (.bool c)).all fun b => decide (0x20 ≤ b)) = true := by decide
    exact le_of_all (hall c) h
  | natural n => exact le_of_mem_decimal h
  | string s => exact le_of_mem_printString h
  | @array depth items _ ih =>
    match items with
    | [] =>
      have hall : ((print (.array [])).all fun b => decide (0x20 ≤ b)) = true := by decide
      exact le_of_all hall h
    | v :: rest =>
      rcases List.mem_cons.1 h with rfl | h
      · decide
      rcases List.mem_append.1 h with h | h
      · exact ih v List.mem_cons_self h
      · exact le_of_mem_printItems (fun w hw c hc => ih w (List.mem_cons_of_mem v hw) hc) h
  | @object depth entries _ _ ih =>
    match entries with
    | [] =>
      have hall : ((print (.object [])).all fun b => decide (0x20 ≤ b)) = true := by decide
      exact le_of_all hall h
    | entry :: rest =>
      rcases List.mem_cons.1 h with rfl | h
      · decide
      rcases List.mem_append.1 h with h | h
      · exact le_of_mem_printString h
      rcases List.mem_cons.1 h with rfl | h
      · decide
      rcases List.mem_append.1 h with h | h
      · exact ih entry List.mem_cons_self h
      · exact le_of_mem_printEntries
          (fun e he c hc => ih e (List.mem_cons_of_mem entry he) hc) h

end WarcStream.Json
