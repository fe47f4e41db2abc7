import WarcStream.Proofs.Command.Rendering
/-!
# Tables hold every row once

Messages that are printed in tables are the rows of as many tables as it takes
for blocks of sixty-four, and every row stands where its number says
(`tables_hold_rows`). What a printer has written behind each message are the
first of these tables, and what it holds back are the rows behind them: its
count, its rows and its output go together because all three are read off
`Tabled`.
-/

namespace WarcStream

open Report

namespace Report

variable {rows full : List (List String)}

/-- Blocks are as many as it takes. -/
theorem length_blocks (rows : List (List String)) :
    (blocks rows).length = (rows.length + 63) / 64 := by
  fun_induction blocks rows with
  | case1 => rfl
  | case2 rows hsome ih =>
    have hpos := List.length_pos_iff.2 hsome
    rw [List.length_cons, ih, List.length_drop, blockRows]
    omega

/-- A block holds the rows from its place on, as far as they fill it. -/
theorem getElem?_blocks (rows : List (List String)) (j : Nat) :
    (blocks rows)[j]? =
      if 64 * j < rows.length then some ((rows.drop (64 * j)).take 64) else none := by
  induction j generalizing rows with
  | zero =>
    rw [blocks]
    split
    · rename_i hnone
      rw [hnone]
      rfl
    · rename_i hsome
      rw [if_pos (List.length_pos_iff.2 hsome)]
      rfl
  | succ j ih =>
    rw [blocks]
    split
    · rename_i hnone
      rw [hnone]
      rfl
    · have hmore : 64 * j < rows.length - 64 ↔ 64 * (j + 1) < rows.length := by omega
      rw [List.getElem?_cons_succ, ih, List.length_drop, blockRows, List.drop_drop, Nat.mul_succ,
        Nat.add_comm 64]
      simp only [hmore, Nat.mul_succ]

/-- A row is that of the message in its place. -/
theorem getElem?_rowsFrom (ms : List Message) (i : Nat) :
    (rowsFrom 0 ms)[i]? = ms[i]?.map (messageRow i) := by
  rw [rowsFrom, List.getElem?_map, List.getElem?_zipIdx, Option.map_map, Nat.zero_add]
  rfl

theorem rowsFrom_take (ms : List Message) (k : Nat) :
    rowsFrom 0 (ms.take k) = (rowsFrom 0 ms).take k := by
  refine List.ext_getElem? fun i => ?_
  rw [getElem?_rowsFrom, List.getElem?_take, List.getElem?_take, getElem?_rowsFrom]
  split <;> rfl

theorem length_rowsFrom (start : Nat) (ms : List Message) :
    (rowsFrom start ms).length = ms.length := by
  rw [rowsFrom, List.length_map, List.length_zipIdx]

end Report

namespace MessagePrinter

variable {p : MessagePrinter} {ms : List Message}

/-- The rows that are pending are the last of those that do not fill a block, and what has been
written are the blocks before them, whatever rows are to come. -/
theorem Tabled.rows_eq (h : p.Tabled ms) (rest : List (List String)) :
    p.rows.reverse = (rowsFrom 0 ms).drop (ms.length - ms.length % 64) ∧
      p.written.reverse = ((blocks (rowsFrom 0 ms ++ rest)).take (ms.length / 64)).map
        fun block => Text.bytes (messageTable block).render := by
  obtain ⟨full, hrows, ⟨q, hfull⟩, hwritten⟩ := h.exists_full
  have hlength := congrArg List.length hrows
  have hpending := h.pending_eq ▸ h.pending_lt
  rw [length_rowsFrom, List.length_append, List.length_reverse] at hlength
  simp only [blockRows] at hfull hpending
  have hdivided : blockRows ∣ full.length := ⟨q, hfull⟩
  have hblocks : (blocks full).length = ms.length / 64 := by
    rw [length_blocks]
    omega
  constructor
  · have hplace : ms.length - ms.length % 64 = full.length := by omega
    rw [hrows, hplace, List.drop_left]
  · rw [hwritten, hrows, List.append_assoc, blocks_append_of_dvd hdivided, ← hblocks,
      List.take_left]

/-- **Tables hold every row once.** Of messages that are printed in tables there are as many tables
as it takes for blocks of sixty-four rows, and none of no messages. The table of each block holds
the rows of the messages from its place on, in their order, each under its number. Behind each
message the tables of the blocks that are full have been written, and the rows that have not been
are those of the last messages, as many as fill no block, and so many are counted as pending. -/
theorem tables_hold_rows (ms : List Message) :
    ∃ tables : List Table,
      (printAll { format := .table } ms).finish = tables.flatMap (fun t => Text.bytes t.render) ∧
      tables.length = (ms.length + 63) / 64 ∧
      (∀ j t, tables[j]? = some t →
        t.header = ["#", "TAG", "DETAILS"] ∧
          ∀ i, t.rows[i]? =
            if i < 64 then
              ms[64 * j + i]?.map fun m => [toString (64 * j + i), m.tag.name, m.describe]
            else none) ∧
      tables.flatMap Table.rows = rowsFrom 0 ms ∧
      ∀ k ≤ ms.length,
        let p := printAll { format := .table } (ms.take k)
        p.printed = k ∧ p.pending = k % 64 ∧ p.rows.length = k % 64 ∧
          p.rows.reverse = ((rowsFrom 0 ms).take k).drop (k - k % 64) ∧
          p.written.reverse = (tables.take (k / 64)).map fun t => Text.bytes t.render := by
  refine ⟨(blocks (rowsFrom 0 ms)).map messageTable, ?_, ?_, fun j t ht => ?_, ?_, fun k hk => ?_⟩
  · rw [finish_printAll, List.flatMap_map]
    rfl
  · rw [List.length_map, length_blocks, length_rowsFrom]
  · rw [List.getElem?_map, getElem?_blocks] at ht
    split at ht
    · cases ht
      refine ⟨rfl, fun i => ?_⟩
      rw [messageTable, List.getElem?_take]
      split
      · rw [List.getElem?_drop, getElem?_rowsFrom]
        rfl
      · rfl
    · cases ht
  · rw [List.flatMap_map, List.flatMap_def]
    exact (congrArg List.flatten (List.map_id _)).trans (flatten_blocks _)
  · intro p
    have htabled : p.Tabled (ms.take k) := tabled_start.printAll (ms.take k)
    have hlength : (ms.take k).length = k := List.length_take_of_le hk
    obtain ⟨hrows, hwritten⟩ := htabled.rows_eq ((rowsFrom 0 ms).drop k)
    rw [hlength, rowsFrom_take] at hrows hwritten
    rw [List.take_append_drop] at hwritten
    have hcount : p.rows.length = k % 64 := by
      rw [← List.length_reverse, hrows, List.length_drop, List.length_take, length_rowsFrom]
      omega
    refine ⟨htabled.printed_eq.trans hlength, htabled.pending_eq.trans hcount, hcount, hrows, ?_⟩
    · rw [hwritten, ← List.map_take, List.map_map]
      rfl

end MessagePrinter

end WarcStream
