import WarcStream.Proofs.Command.Printing
/-!
# What a printer makes of messages

`OutputFormat.rendering` lays messages out without a printer: each as a line, or
all of them as the rows of tables, `blocks` of so many rows each and a last one
with the rest. A printer that writes a table whenever its rows have filled one
up, and the rest in the end, comes to the same (`finish_printAll`). What carries
the tables is `Tabled`: full blocks have been written, and the rows that are
pending are counted and never fill one.
-/

namespace WarcStream

open Report

namespace Report

variable {rows first full : List (List String)}

/-- Rows in blocks. Every block but the last is full. -/
def blocks (rows : List (List String)) : List (List (List String)) :=
  if rows = [] then [] else rows.take blockRows :: blocks (rows.drop blockRows)
termination_by rows.length
decreasing_by
  have := List.length_pos_iff.2 ‹rows ≠ []›
  rw [List.length_drop, blockRows]
  omega

theorem blockRows_pos : 0 < blockRows := by decide

theorem blocks_nil : blocks [] = [] := by rw [blocks, if_pos rfl]

/-- Rows that fill a block are one, -/
theorem blocks_append (hfirst : first.length = blockRows) (rest : List (List String)) :
    blocks (first ++ rest) = first :: blocks rest := by
  have hsome : first ++ rest ≠ [] := by
    rintro hnone
    rw [(List.append_eq_nil_iff.1 hnone).1] at hfirst
    cases hfirst
  rw [blocks, if_neg hsome, ← hfirst, List.take_left, List.drop_left]

/-- and so are rows that are too few for more. -/
theorem blocks_of_le (hsome : rows ≠ []) (hle : rows.length ≤ blockRows) :
    blocks rows = [rows] := by
  rw [blocks, if_neg hsome, List.take_of_length_le hle, List.drop_of_length_le hle, blocks_nil]

/-- No row is lost, and none comes twice. -/
theorem flatten_blocks (rows : List (List String)) : (blocks rows).flatten = rows := by
  fun_induction blocks rows with
  | case1 => rfl
  | case2 rows hsome ih => rw [List.flatten_cons, ih, List.take_append_drop]

/-- Rows behind full blocks make up blocks of their own. -/
theorem blocks_append_of_dvd (h : blockRows ∣ full.length) (rest : List (List String)) :
    blocks (full ++ rest) = blocks full ++ blocks rest := by
  fun_induction blocks full with
  | case1 => rfl
  | case2 full hsome ih =>
    have hle : blockRows ≤ full.length := Nat.le_of_dvd (List.length_pos_iff.2 hsome) h
    have hfirst : (full.take blockRows).length = blockRows := List.length_take_of_le hle
    have hrest : blockRows ∣ (full.drop blockRows).length := by
      rw [List.length_drop]
      exact Nat.dvd_sub h (Nat.dvd_refl _)
    have hsplit : full ++ rest = full.take blockRows ++ (full.drop blockRows ++ rest) := by
      rw [← List.append_assoc, List.take_append_drop]
    rw [hsplit, blocks_append hfirst _, ih hrest, List.cons_append]

/-- The rows of messages that are counted from a number on. -/
def rowsFrom (start : Nat) (ms : List Message) : List (List String) :=
  (ms.zipIdx start).map fun (m, index) => messageRow index m

theorem rowsFrom_concat (start : Nat) (ms : List Message) (m : Message) :
    rowsFrom start (ms ++ [m]) = rowsFrom start ms ++ [messageRow (start + ms.length) m] := by
  simp [rowsFrom, List.zipIdx_append]

/-- Rows in tables, one table a block. -/
def tables (rows : List (List String)) : Bytes :=
  (blocks rows).flatMap fun block => Text.bytes (messageTable block).render

/-- The lines of messages that are counted from a number on. -/
def prettyLines (start : Nat) (ms : List Message) : Bytes :=
  (ms.zipIdx start).flatMap fun (m, index) => Text.bytes (prettyLine index m)

end Report

/-- Messages as they are laid out, counted from zero. -/
def OutputFormat.rendering : OutputFormat → List Message → Bytes
  | .json, ms => MessagePrinter.jsonLines ms
  | .table, ms => tables (rowsFrom 0 ms)
  | .pretty, ms => prettyLines 0 ms

namespace MessagePrinter

variable {p : MessagePrinter}

theorem finish_printAll_pretty (hformat : p.format = .pretty) (hpending : p.pending = 0)
    (ms : List Message) :
    (p.printAll ms).finish = p.written.reverse.flatten ++ prettyLines p.printed ms :=
  finish_printAll_of_line (fun index m => Text.bytes (prettyLine index m))
    (fun q hq m => by rw [MessagePrinter.print, hq, hformat]) hpending ms

/-- **Where a printer of tables stands** behind messages: the rows that fill blocks have been
written, a table for each block, and the rows behind them, too few for one more, are counted as
pending. -/
structure Tabled (p : MessagePrinter) (ms : List Message) : Prop where
  format_eq : p.format = .table
  printed_eq : p.printed = ms.length
  pending_eq : p.pending = p.rows.length
  pending_lt : p.pending < blockRows
  exists_full : ∃ full, rowsFrom 0 ms = full ++ p.rows.reverse ∧ blockRows ∣ full.length ∧
    p.written.reverse = (blocks full).map fun block => Text.bytes (messageTable block).render

theorem tabled_start : Tabled { format := .table } [] :=
  ⟨rfl, rfl, rfl, blockRows_pos, [], rfl, Nat.dvd_zero _, by rw [blocks_nil]; rfl⟩

/-- **One message more**: its row is pending with the others, or they fill a block and are
written. -/
theorem Tabled.print {ms : List Message} (h : p.Tabled ms) (m : Message) :
    (p.print m).Tabled (ms ++ [m]) := by
  let row := messageRow p.printed m
  obtain ⟨full, hrows, hfull, hwritten⟩ := h.exists_full
  have hprinted : p.printed + 1 = (ms ++ [m]).length := by
    rw [h.printed_eq, List.length_append, List.length_singleton]
  have hcount : p.pending + 1 = (row :: p.rows).reverse.length := by
    rw [h.pending_eq, List.length_reverse, List.length_cons]
  have hmore : rowsFrom 0 (ms ++ [m]) = full ++ (row :: p.rows).reverse := by
    rw [rowsFrom_concat, hrows, Nat.zero_add, ← h.printed_eq, List.append_assoc,
      List.reverse_cons]
  have hprint : p.print m =
      if p.pending + 1 = blockRows then
        { p with
          printed := p.printed + 1
          written := Text.bytes (messageTable (row :: p.rows).reverse).render :: p.written
          rows := []
          pending := 0 }
      else
        { p with printed := p.printed + 1, rows := row :: p.rows, pending := p.pending + 1 } := by
    rw [MessagePrinter.print, h.format_eq]
    rfl
  rw [hprint]
  split
  · rename_i hblock
    rw [hcount] at hblock
    have hone : blocks (row :: p.rows).reverse = [(row :: p.rows).reverse] := by
      have hblocks := blocks_append hblock []
      rwa [List.append_nil, blocks_nil] at hblocks
    refine ⟨h.format_eq, hprinted, rfl, blockRows_pos, full ++ (row :: p.rows).reverse, ?_, ?_, ?_⟩
    · rw [hmore, List.reverse_nil, List.append_nil]
    · rw [List.length_append, hblock]
      exact Nat.dvd_add hfull (Nat.dvd_refl _)
    · rw [List.reverse_cons, hwritten, blocks_append_of_dvd hfull, hone, List.map_append]
      rfl
  · rename_i hopen
    rw [List.length_reverse] at hcount
    exact ⟨h.format_eq, hprinted, hcount, Nat.lt_of_le_of_ne h.pending_lt hopen, full, hmore, hfull,
      hwritten⟩

/-- Any number of messages more. -/
theorem Tabled.printAll {before : List Message} (h : p.Tabled before) (ms : List Message) :
    (p.printAll ms).Tabled (before ++ ms) := by
  induction ms generalizing p before with
  | nil => rwa [List.append_nil]
  | cons m ms ih =>
    have hrest := ih (h.print m)
    rwa [List.append_assoc, List.singleton_append] at hrest

/-- **Tables**: what is pending in the end is the last block. -/
theorem Tabled.finish_eq {ms : List Message} (h : p.Tabled ms) :
    p.finish = tables (rowsFrom 0 ms) := by
  obtain ⟨full, hrows, hfull, hwritten⟩ := h.exists_full
  rw [hrows, tables, blocks_append_of_dvd hfull, List.flatMap_append]
  by_cases hnone : p.pending = 0
  · have hempty : p.rows = [] := List.length_eq_zero_iff.1 (h.pending_eq.symm.trans hnone)
    rw [finish_of_pending hnone, hwritten, hempty, List.reverse_nil, blocks_nil, List.flatMap_nil,
      List.append_nil, List.flatMap_def]
  · have hsome : p.rows ≠ [] := fun hempty =>
      hnone (h.pending_eq.trans (List.length_eq_zero_iff.2 hempty))
    have hblocks : blocks p.rows.reverse = [p.rows.reverse] := by
      refine blocks_of_le (by simpa using hsome) ?_
      rw [List.length_reverse, ← h.pending_eq]
      exact Nat.le_of_lt h.pending_lt
    rw [finish, writeTable, if_neg hnone, List.reverse_cons, hwritten, hblocks,
      List.flatMap_singleton, List.flatten_append, List.flatten_singleton, List.flatMap_def]

/-- **What a printer makes of messages** is their rendering: what it has not written by the end of
the last message it writes then. -/
theorem finish_printAll (format : OutputFormat) (ms : List Message) :
    (printAll { format } ms).finish = format.rendering ms := by
  cases format with
  | json => exact finish_printAll_json rfl rfl ms
  | table => exact (tabled_start.printAll ms).finish_eq
  | pretty => exact finish_printAll_pretty rfl rfl ms

end MessagePrinter

end WarcStream
