import WarcStream.Text.Emoji
import WarcStream.Text.Parting
import WarcStream.Text.Width
/-!
# The columns of a line

Some characters take fewer columns together than apart: an alef after a lam,
the letters of a flag, a face and its skin tone, emoji held together by a
joiner. A line is therefore measured from its end, and every character is told
what follows it: a `Follower`, which remembers as much of the rest of the line
as can still change a character before it, and the variation selector between
the two, if there is one.
-/

namespace WarcStream.Text

/-! ## Classes of characters -/

/-- The joiner of zero width. -/
def joiner : Char := '\u200d'

/-- An Arabic letter lam. -/
def isLam (c : Char) : Bool :=
  inRanges [(0x644, 0x644), (0x6b5, 0x6b8), (0x76a, 0x76a), (0x8a6, 0x8a6), (0x8c7, 0x8c7)]
    c.toNat

/-- An Arabic letter alef. -/
def isAlef (c : Char) : Bool :=
  inRanges [(0x622, 0x623), (0x625, 0x625), (0x627, 0x627), (0x671, 0x673), (0x675, 0x675),
    (0x773, 0x774), (0x870, 0x882)] c.toNat

/-- A Khmer letter that can be written below another. -/
def isKhmerSubscript (c : Char) : Bool :=
  inRanges [(0x1780, 0x1782), (0x1784, 0x1787), (0x1789, 0x178c), (0x178e, 0x1793),
    (0x1795, 0x1798), (0x179b, 0x179d), (0x17a0, 0x17a0), (0x17a2, 0x17a2), (0x17a7, 0x17a7),
    (0x17ab, 0x17ac), (0x17af, 0x17af)] c.toNat

/-- A Tifinagh consonant. -/
def isTifinaghConsonant (c : Char) : Bool := inRanges [(0x2d31, 0x2d65), (0x2d6f, 0x2d6f)] c.toNat

/-- A letter of a flag, named by the letters of a country. -/
def isFlagLetter (c : Char) : Bool := inRanges [(0x1f1e6, 0x1f1ff)] c.toNat

/-- A skin tone. -/
def isSkinTone (c : Char) : Bool := inRanges [(0x1f3fb, 0x1f3ff)] c.toNat

/-- A picture by itself. -/
def isEmoji (c : Char) : Bool := inRanges emojiRanges c.toNat

/-- A picture or a sign, as a selector says. -/
def isSelectable (c : Char) : Bool := inRanges selectableRanges c.toNat

/-- A picture that takes the width of a letter when a selector makes it a sign; an ideograph in a
frame keeps its width. -/
def narrowsAsSign (c : Char) : Bool :=
  isSelectable c && isEmoji c && !inRanges [(0x1f200, 0x1f2ff)] c.toNat

/-- A quotation mark that has a wide form. -/
def isQuotationMark (c : Char) : Bool := inRanges [(0x2018, 0x2019), (0x201c, 0x201d)] c.toNat

/-- A mark that lets the letters on either side of it join: the ignorable ones. -/
def isUnseenMark (c : Char) : Bool :=
  inRanges [(0x34f, 0x34f), (0x17b4, 0x17b5), (0x180b, 0x180d), (0x180f, 0x180f),
    (0xfe00, 0xfe0f), (0xe0100, 0xe01ef)] c.toNat

/-- A mark that lets Arabic letters on either side of it join. -/
def isTransparent (c : Char) : Bool := charWidth c == 0 && !inRanges partingRanges c.toNat

/-! ## What follows a character -/

/-- A letter that may join the one before it; `joined` tells of a joiner before it. -/
inductive JoiningLetter
  | alef
  | lamed (joined : Bool)
  | ya (joined : Bool)
  /-- The vowel sign i, a joiner and the letter ya. -/
  | vowelAndYa
  | tifinagh (joined : Bool)
  /-- The joiner of consonants and a consonant. -/
  | tifinaghPair
  | lisuTone
  | orkhonI (joined : Bool)
  | khmer
  deriving DecidableEq, Repr

/-- The beginning of the line after a character. -/
inductive Follower
  /-- Nothing that changes the character. -/
  | plain
  | letter (l : JoiningLetter)
  /-- The vowel sign e of Kirat Rai. -/
  | kiratRaiE
  /-- The vowel sign ai of Kirat Rai, or two signs e. -/
  | kiratRaiAi
  | skinTone
  | flagLetter
  /-- Two or more letters of flags. -/
  | flagLetters
  | emoji
  /-- A joiner before an emoji. -/
  | joinedEmoji
  /-- The frame of a key, a joiner and an emoji. -/
  | joinedKey
  /-- One letter of a flag, a joiner and an emoji. -/
  | joinedFlagLetter
  /-- Whole flags, a joiner and an emoji. -/
  | joinedFlags
  /-- One letter of a flag, whole flags, a joiner and an emoji. -/
  | joinedFlagsAndLetter
  /-- The letters and digits of a region's flag up to its end, a joiner and an emoji. -/
  | joinedRegion (letters digits : Nat)
  deriving DecidableEq, Repr

/-- How a variation selector wants the character before it drawn. -/
inductive Selector
  | picture
  | sign
  | wide
  deriving DecidableEq, Repr

/-- What follows a character. -/
structure Context where
  follower : Follower
  selector : Option Selector
  deriving DecidableEq, Repr

/-- The end of a line. -/
def Context.empty : Context := ⟨.plain, none⟩

/-- The selector that a character is. -/
def Selector.ofChar? (c : Char) : Option Selector :=
  if c == '\ufe0f' then some .picture
  else if c == '\ufe0e' then some .sign
  else if c == '\ufe01' then some .wide
  else none

namespace Follower

/-- A character before the joiner is a part of the emoji after it. -/
def isJoined : Follower → Bool
  | joinedEmoji | joinedKey | joinedRegion .. => true
  | _ => false

/-- What stays of a follower before a selector: a letter joins across it, and a picture it selects
may join an emoji. -/
def behind (f : Follower) (s : Selector) : Follower :=
  match f with
  | letter _ => f
  | _ => if f.isJoined && s = .picture then f else plain

/-- What stays of a follower when the character before the selector is not one it is for. -/
def unselected : Follower → Follower
  | letter l => letter l
  | _ => plain

/-- A letter with a joiner before it, where joiners and ignored marks do not part it from the
letter before. -/
def joined? : Follower → Option Follower
  | letter .alef => none
  | letter (.lamed _) => some (letter (.lamed true))
  | letter (.ya _) => some (letter (.ya true))
  | letter (.tifinagh _) => some (letter (.tifinagh true))
  | letter (.orkhonI _) => some (letter (.orkhonI true))
  | letter l => some (letter l)
  | _ => none

/-- What a character is to the one before it when it joins nothing after it. -/
def ofChar (c : Char) : Follower :=
  if isAlef c then letter .alef
  else if c == '\u05dc' then letter (.lamed false)
  else if c == '\u1a10' then letter (.ya false)
  else if isKhmerSubscript c then letter .khmer
  else if isTifinaghConsonant c then letter (.tifinagh false)
  else if c == '\ua4fc' || c == '\ua4fd' then letter .lisuTone
  else if c == Char.ofNat 0x10c03 then letter (.orkhonI false)
  else if c == Char.ofNat 0x16d67 then kiratRaiE
  else if c == Char.ofNat 0x16d68 then kiratRaiAi
  else if isFlagLetter c then flagLetter
  else if isSkinTone c then skinTone
  else if isEmoji c then emoji
  else plain

end Follower

/-! ## Characters that join what follows -/

/-- The columns that a character adds to those of the letter it joins, and what the two are to the
character before them. -/
def joinLetter? (c : Char) : JoiningLetter → Option (Int × Follower)
  | .alef =>
    if isLam c then some (0, .plain)
    else if isTransparent c then some (0, .letter .alef)
    else none
  | .lamed true => if c == '\u05d0' then some (0, .plain) else none
  | .ya true => if c == '\u1a17' then some (0, .letter .vowelAndYa) else none
  | .vowelAndYa => if c == '\u1a15' then some (0, .plain) else none
  | .tifinagh joined =>
    if c == tifinaghJoiner then some (1, .letter .tifinaghPair)
    else if joined && isTifinaghConsonant c then some (0, .plain)
    else none
  | .tifinaghPair => if isTifinaghConsonant c then some (-1, .plain) else none
  | .lisuTone => if inRanges [(0xa4f8, 0xa4fb)] c.toNat then some (0, .plain) else none
  | .orkhonI true => if c.toNat == 0x10c32 then some (0, .plain) else none
  | .khmer => if c == '\u17d2' then some (-1, .plain) else none
  | _ => none

/-- The vowel signs of Kirat Rai that are one sign with the sign e. -/
def joinKiratRaiE? (c : Char) : Option (Int × Follower) :=
  if c.toNat == 0x16d63 || c.toNat == 0x16d69 then some (0, .plain)
  else if c.toNat == 0x16d67 then some (0, .kiratRaiAi)
  else if c.toNat == 0x16d68 then some (1, .kiratRaiE)
  else none

/-- What joins an emoji across the joiner between them. -/
def joinEmoji? (c : Char) : Option (Int × Follower) :=
  if c == '\u20e3' then some (0, .joinedKey)
  else if isFlagLetter c then some (1, .joinedFlagLetter)
  else if isSkinTone c then some (0, .skinTone)
  else if c.toNat == 0xe007f then some (0, .joinedRegion 0 0)
  else if isEmoji c then some (0, .emoji)
  else none

/-- A flag of a region, read from its end: up to six letters, or three digits before up to four
letters, and before them the black flag. -/
def joinRegion? (c : Char) (letters digits : Nat) : Option (Int × Follower) :=
  if inRanges [(0xe0061, 0xe007a)] c.toNat && digits == 0 && letters < 6 then
    some (0, .joinedRegion (letters + 1) 0)
  else if inRanges [(0xe0030, 0xe0039)] c.toNat && letters ≤ 4 && digits < 3 then
    some (0, .joinedRegion letters (digits + 1))
  else if c.toNat == 0x1f3f4 && (digits == 3 || (digits == 0 && 3 ≤ letters)) then
    some (0, .emoji)
  else none

/-- The columns that a character adds to those of what follows, where it joins that. -/
def join? (c : Char) : Follower → Option (Int × Follower)
  | .plain => none
  | .letter l => joinLetter? c l
  | .kiratRaiE => joinKiratRaiE? c
  | .kiratRaiAi => if c.toNat == 0x16d63 then some (0, .plain) else none
  | .skinTone =>
    if inRanges toneableRanges c.toNat then some (0, .emoji)
    else if c == joiner then some (0, .joinedEmoji)
    else none
  | .flagLetter => if isFlagLetter c then some (1, .flagLetters) else none
  | .flagLetters =>
    if isFlagLetter c then some (1, .flagLetters)
    else if c == joiner then some (0, .joinedEmoji)
    else none
  | .emoji => if c == joiner then some (0, .joinedEmoji) else none
  | .joinedEmoji => joinEmoji? c
  | .joinedKey => none
  | .joinedFlagLetter => if isFlagLetter c then some (-1, .joinedFlags) else none
  | .joinedFlags =>
    if isFlagLetter c then some (3, .joinedFlagsAndLetter)
    else if c == joiner then some (0, .joinedEmoji)
    else none
  | .joinedFlagsAndLetter =>
    if isFlagLetter c then some (-1, .joinedFlags)
    else if c == joiner then some (0, .joinedEmoji)
    else none
  | .joinedRegion letters digits => joinRegion? c letters digits

/-! ## Measuring -/

/-- The columns of a character that no selector is for, before a follower. -/
def joinOrStand (c : Char) (f : Follower) : Int × Follower :=
  match f.joined? with
  | some joined =>
    if c == joiner then (0, joined)
    else if isUnseenMark c then (0, f)
    else (join? c f).getD (charWidth c, .ofChar c)
  | none => (join? c f).getD (charWidth c, .ofChar c)

/-- The columns that a character adds to those of the line after it, and what the character is to
the one before it. -/
def place (c : Char) (after : Context) : Int × Context :=
  if after.selector = some .picture && isSelectable c then
    (if after.follower.isJoined then 0 else 2, ⟨.emoji, none⟩)
  else
    let f := if after.selector = some .picture then after.follower.unselected else after.follower
    match Selector.ofChar? c with
    | some s => (0, ⟨f.behind s, some s⟩)
    | none =>
      if c.toNat ≤ 0xa0 then (1, .empty)
      else if after.selector = some .sign && narrowsAsSign c then (1, .empty)
      else if after.selector = some .wide && isQuotationMark c then (2, .empty)
      else
        let (width, f) := joinOrStand c f
        (width, ⟨f, none⟩)

/-- The columns of a line with what follows it, and what the line is to a character before it. -/
def measure (cs : List Char) : Int × Context :=
  cs.foldr (fun c (columns, after) => let (width, before) := place c after
    (width + columns, before)) (0, .empty)

/-- The columns of a line. A character that takes back a column does so of a letter after it, so
that the sum is never negative. -/
def lineWidth (cs : List Char) : Nat := (measure cs).1.toNat

end WarcStream.Text
