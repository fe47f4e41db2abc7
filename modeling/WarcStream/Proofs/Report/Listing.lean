import WarcStream.Proofs.Command.Lines
import WarcStream.Proofs.Command.Rendering
import WarcStream.Proofs.Text.Trimming
/-!
# Listings

A listing for people opens an entry for each message with its number and its
tag, and goes on with what the message says, in which the texts of a peer stand
as they were sent. All else in it is printed ASCII (`count_describe`), so a
listing has a line for each message and one more for each line feed in those
texts (`length_linesOf_prettyLines`), and it is one line a message just where
they hold none. Where they may, one message can be listed as any others are.
-/

namespace WarcStream

open Bytes Report

namespace Text

variable {c : Char} {cs ds : List Char}

/-- The characters that end a line: line feed, line tabulation, form feed, carriage return, next
line, line separator and paragraph separator. -/
def lineBreaks : List Char := ['\n', '\x0b', '\x0c', '\r', '\u0085', '\u2028', '\u2029']

/-- Nothing but printed ASCII characters and spaces. -/
def isPrinted (cs : List Char) : Bool := cs.all fun c => 0x20 ≤ c.toNat && c.toNat < 0x7f

theorem isPrinted_append (cs ds : List Char) :
    isPrinted (cs ++ ds) = (isPrinted cs && isPrinted ds) := List.all_append

/-- A printed text is not broken into lines. -/
theorem count_of_isPrinted (h : isPrinted cs = true) (hc : c ∈ lineBreaks) : cs.count c = 0 := by
  refine List.count_eq_zero.2 fun hmem => ?_
  have hprinted := List.all_eq_true.1 h c hmem
  simp only [lineBreaks, List.mem_cons, List.not_mem_nil, or_false] at hc
  rcases hc with rfl | rfl | rfl | rfl | rfl | rfl | rfl <;> exact absurd hprinted (by decide)

theorem isPrinted_toString (n : Nat) : isPrinted (toString n).toList = true := by
  rw [Nat.toString_eq_repr, Nat.toList_repr]
  refine List.all_eq_true.2 fun c hc => ?_
  have hdigit := Nat.isDigit_of_mem_toDigits (by decide) (by decide) hc
  simp only [Char.isDigit, Bool.and_eq_true, decide_eq_true_eq, UInt32.le_iff_toNat_le] at hdigit ⊢
  exact ⟨Nat.le_trans (by decide) hdigit.1, Nat.lt_of_le_of_lt hdigit.2 (by decide)⟩

end Text

/-- The texts of a peer that a message says. -/
def Message.shown : Message → List String
  | .metadata m => [m.file]
  | .header h => h.version :: (h.field? "WARC-Type").toList
  | .blockChunk _ | .blockEnd _ | .endOfFile => []

open Text

/-- What is said of checksums is printed. -/
theorem Checksums.isPrinted_parts (c : Checksums) :
    isPrinted (" ".intercalate c.parts).toList = true := by
  have hpart {name : String} (hname : isPrinted name.toList = true) (n : Nat) :
      isPrinted (name ++ "=" ++ toString n).toList = true := by
    rw [String.toList_append, String.toList_append, isPrinted_append, isPrinted_append, hname,
      isPrinted_toString]
    rfl
  have hparts : ∀ part ∈ c.parts.map String.toList, isPrinted part = true := by
    simp only [parts, List.forall_mem_map, List.forall_mem_append]
    exact ⟨⟨fun n _ => hpart (by decide) n, fun n _ => hpart (by decide) n⟩,
      fun n _ => hpart (by decide) n⟩
  rw [String.toList_intercalate]
  generalize c.parts.map String.toList = parts at hparts
  induction parts with
  | nil => rfl
  | cons part rest ih =>
    obtain ⟨hpart, hrest⟩ := List.forall_mem_cons.1 hparts
    cases rest with
    | nil => simpa using hpart
    | cons next rest =>
      rw [List.intercalate_cons_cons, isPrinted_append, isPrinted_append, hpart, ih hrest]
      rfl

/-- **What ends a line in a description** stands in a text of the peer, and all that does there
stands in the description. -/
theorem Message.count_describe (m : Message) {c : Char} (hc : c ∈ lineBreaks) :
    m.describe.toList.count c = (m.shown.flatMap String.toList).count c := by
  have hnone {s : String} (h : isPrinted s.toList = true) : s.toList.count c = 0 :=
    count_of_isPrinted h hc
  have hnumber (n : Nat) := hnone (isPrinted_toString n)
  cases m with
  | metadata m =>
    have hfile := hnone (s := "file=") (by decide)
    have hposition := hnone (s := " position=") (by decide)
    simp only [describe, shown, String.toList_append, List.count_append, List.flatMap_singleton,
      hfile, hposition, hnumber, Nat.zero_add, Nat.add_zero]
  | header h =>
    have hversion := hnone (s := "version=") (by decide)
    have hfields := hnone (s := " fields=") (by decide)
    simp only [describe, shown, String.toList_append, List.count_append, List.flatMap_cons,
      hversion, hfields, hnumber, Nat.zero_add, Nat.add_zero]
    cases h.field? "WARC-Type" with
    | none => rfl
    | some kind =>
      have htype := hnone (s := " type=") (by decide)
      simp only [String.toList_append, List.count_append, htype, Nat.zero_add, Option.toList_some,
        List.flatMap_singleton]
  | blockChunk data =>
    have hbytes := hnone (s := "bytes=") (by decide)
    simp only [describe, shown, String.toList_append, List.count_append, hbytes, hnumber]
    rfl
  | blockEnd checksums =>
    refine hnone ?_
    rw [describe]
    split
    · decide
    · exact checksums.isPrinted_parts
  | endOfFile => rfl

/-! ## Entries -/

namespace Report

/-- What stands behind the tag of a message. -/
def details (m : Message) : String := if m.describe.isEmpty then "" else " " ++ m.describe

/-- The entry of a message in a listing, without its line feed. -/
def entry (index : Nat) (m : Message) : String :=
  "#" ++ toString index ++ " " ++ m.tag.name ++ details m

theorem bytes_prettyLine (index : Nat) (m : Message) :
    Text.bytes (prettyLine index m) = Text.bytes (entry index m) ++ [lineFeed] :=
  Text.bytes_append (entry index m) "\n"

/-- An entry holds the line feeds of the texts that are said in it. -/
theorem count_entry (index : Nat) (m : Message) :
    (Text.bytes (entry index m)).count lineFeed = (m.shown.flatMap String.toList).count '\n' := by
  have hbreak : '\n' ∈ lineBreaks := by decide
  have hnone {s : String} (h : isPrinted s.toList = true) : s.toList.count '\n' = 0 :=
    count_of_isPrinted h hbreak
  have hhash := hnone (s := "#") (by decide)
  have hblank := hnone (s := " ") (by decide)
  have htag : m.tag.name.toList.count '\n' = 0 := hnone (by cases m.tag <;> decide)
  have hdetails : (details m).toList.count '\n' = m.describe.toList.count '\n' := by
    rw [details]
    split
    · rename_i hempty
      rw [String.isEmpty_iff.1 hempty]
    · rw [String.toList_append, List.count_append, hblank, Nat.zero_add]
  rw [Text.bytes_eq, count_lineFeed, ← m.count_describe hbreak, ← hdetails]
  simp only [entry, String.toList_append, List.count_append, hhash, hblank, htag,
    hnone (isPrinted_toString index), Nat.zero_add]

/-- The lines of a listing are those of its entries. -/
theorem linesOf_prettyLines (start : Nat) (ms : List Message) :
    Command.linesOf (prettyLines start ms) =
      (ms.zipIdx start).flatMap fun (m, index) =>
        Command.linesOf (Text.bytes (entry index m) ++ [lineFeed]) := by
  induction ms generalizing start with
  | nil => rfl
  | cons m ms ih =>
    have hlines : prettyLines start (m :: ms) =
        Text.bytes (entry start m) ++ lineFeed :: prettyLines (start + 1) ms := by
      rw [prettyLines, List.zipIdx_cons, List.flatMap_cons]
      dsimp only
      rw [bytes_prettyLine, List.append_assoc]
      rfl
    rw [hlines, Command.linesOf_append_closed, ih, List.zipIdx_cons, List.flatMap_cons]

/-- **The length of a listing.** -/
theorem length_linesOf_prettyLines (start : Nat) (ms : List Message) :
    (Command.linesOf (prettyLines start ms)).length =
      ms.length + ((ms.flatMap Message.shown).flatMap String.toList).count '\n' := by
  rw [linesOf_prettyLines]
  induction ms generalizing start with
  | nil => rfl
  | cons m ms ih =>
    rw [List.zipIdx_cons, List.flatMap_cons, List.length_append, ih, Command.length_linesOf_concat,
      count_entry, List.flatMap_cons, List.flatMap_append, List.count_append, List.length_cons]
    omega

/-- **One line a message**, where no text that is said holds a line feed. -/
theorem linesOf_prettyLines_of_notMem {ms : List Message} (start : Nat)
    (h : ∀ m ∈ ms, ∀ text ∈ m.shown, '\n' ∉ text.toList) :
    Command.linesOf (prettyLines start ms) =
      (ms.zipIdx start).map fun (m, index) => Text.bytes (entry index m) := by
  rw [linesOf_prettyLines, List.map_eq_flatMap]
  refine List.flatMap_congr fun (m, index) hm => ?_
  have hnone : lineFeed ∉ Text.bytes (entry index m) := by
    rw [← List.count_eq_zero, count_entry, List.count_eq_zero, List.mem_flatMap]
    rintro ⟨text, htext, hmem⟩
    exact h m (List.fst_mem_of_mem_zipIdx hm) text htext hmem
  exact Command.linesOf_append_cons hnone []

/-- A listing is a text. -/
theorem exists_text_prettyLines (start : Nat) (ms : List Message) :
    ∃ text, Text.bytes text = prettyLines start ms := by
  induction ms generalizing start with
  | nil => exact ⟨"", rfl⟩
  | cons m ms ih =>
    obtain ⟨text, htext⟩ := ih (start + 1)
    exact ⟨prettyLine start m ++ text, by rw [Text.bytes_append, htext]; rfl⟩

theorem prettyLine_metadata (index : Nat) (m : Metadata) :
    prettyLine index (.metadata m) =
      "#" ++ toString index ++ " Metadata file=" ++ m.file ++ " position=" ++
        toString m.position.toNat ++ "\n" := by
  have hsome : (Message.metadata m).describe.isEmpty = false := by
    rw [Message.describe, ← Bool.not_eq_true, String.isEmpty_iff, ← String.toList_inj]
    simp
  rw [prettyLine, hsome, if_neg Bool.false_ne_true, Message.tag, Message.describe, Tag.name]
  simp only [String.append_assoc]
  rfl

/-- **One message can be listed as others are**: a location whose name goes on over their lines. -/
theorem exists_forged (first last : Metadata) (ms : List Message) :
    ∃ forged : Metadata,
      prettyLines 0 [.metadata forged] =
        prettyLines 0 (.metadata first :: ms ++ [.metadata last]) := by
  obtain ⟨between, hbetween⟩ := exists_text_prettyLines 1 ms
  let name := first.file ++ " position=" ++ toString first.position.toNat ++ "\n" ++ between ++
    "#" ++ toString (ms.length + 1) ++ " Metadata file=" ++ last.file
  have hall : prettyLines 0 (.metadata first :: ms ++ [.metadata last]) =
      Text.bytes (prettyLine 0 (.metadata first)) ++ Text.bytes between ++
        Text.bytes (prettyLine (ms.length + 1) (.metadata last)) := by
    rw [hbetween, prettyLines, List.zipIdx_append, List.flatMap_append, List.zipIdx_cons,
      List.flatMap_cons, List.length_cons]
    simp [prettyLines]
  refine ⟨⟨name, last.position⟩, ?_⟩
  rw [hall, ← Text.bytes_append, ← Text.bytes_append, prettyLines, List.zipIdx_cons,
    List.zipIdx_nil, List.flatMap_singleton]
  dsimp only
  rw [prettyLine_metadata, prettyLine_metadata, prettyLine_metadata]
  simp only [name, String.append_assoc]

end Report

namespace MessagePrinter

/-- **A listing is one line a message just where the texts of a peer hold no line feed.** The lines
of a listing are those of its entries, one behind the other: each message opens a line with its
number and its tag, and closes it where no text that it says holds a line feed. Every line feed in
these texts is one line more, and what ends a line in a description is what does in them. Where they
may hold any, one location is listed as any messages between two locations are. -/
theorem pretty_lines (ms : List Message) :
    let lines := Command.linesOf (printAll { format := .pretty } ms).finish
    (lines = ms.zipIdx.flatMap fun (m, index) =>
      Command.linesOf (Text.bytes (entry index m) ++ [lineFeed])) ∧
    (lines = (ms.zipIdx.map fun (m, index) =>
        Text.bytes ("#" ++ toString index ++ " " ++ m.tag.name ++ details m)) ↔
      ∀ m ∈ ms, ∀ text ∈ m.shown, '\n' ∉ text.toList) ∧
    lines.length = ms.length + ((ms.flatMap Message.shown).flatMap String.toList).count '\n' ∧
    (∀ m : Message, ∀ c ∈ lineBreaks,
      c ∈ m.describe.toList ↔ ∃ text ∈ m.shown, c ∈ text.toList) ∧
    ∀ first last : Metadata, ∃ forged : Metadata,
      (printAll { format := .pretty } [.metadata forged]).finish =
        (printAll { format := .pretty } (.metadata first :: ms ++ [.metadata last])).finish := by
  simp only [finish_printAll]
  have hlength := length_linesOf_prettyLines 0 ms
  refine ⟨linesOf_prettyLines 0 ms, ⟨fun hlines m hm text htext hmem => ?_, ?_⟩, hlength,
    fun m c hc => ?_, fun first last => exists_forged first last ms⟩
  · have hmore : 0 < ((ms.flatMap Message.shown).flatMap String.toList).count '\n' :=
      List.count_pos_iff.2 (List.mem_flatMap.2 ⟨text, List.mem_flatMap.2 ⟨m, hm, htext⟩, hmem⟩)
    have hsame := congrArg List.length hlines
    rw [List.length_map, List.length_zipIdx] at hsame
    have hcount := hsame.symm.trans hlength
    omega
  · exact linesOf_prettyLines_of_notMem 0
  · rw [← List.count_pos_iff, m.count_describe hc, List.count_pos_iff, List.mem_flatMap]

/-- A location whose name goes on as another entry. -/
def splitName : Metadata := ⟨"a position=0\n#1 Metadata file=b", 7⟩

/-- It is listed in two lines, as two locations are. -/
theorem pretty_lines_splitName :
    (Command.linesOf (printAll { format := .pretty } [.metadata splitName]).finish).length = 2 ∧
      '\n' ∈ (Message.metadata splitName).describe.toList ∧
      (printAll { format := .pretty } [.metadata splitName]).finish =
        (printAll { format := .pretty } [.metadata ⟨"a", 0⟩, .metadata ⟨"b", 7⟩]).finish := by
  obtain ⟨-, -, hlength, hbreaks, -⟩ := pretty_lines [.metadata splitName]
  refine ⟨hlength.trans (by decide +kernel), ?_, by decide +kernel⟩
  exact (hbreaks (.metadata splitName) '\n' (by decide)).2 ⟨_, List.mem_singleton_self _, by decide⟩

end MessagePrinter

end WarcStream
