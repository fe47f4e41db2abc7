import WarcStream.Text.Quoted
import WarcStream.Text.Wide
/-!
# Display width of a character

The number of terminal columns a character takes by itself: two for a wide
character, none for a mark that joins the character before it, for a sign that
spans the characters after it, for a character that is ignored by default and
for the inner letters of a Hangul syllable, and one for every other character,
control characters included.
-/

namespace WarcStream.Text

/-- Characters a display ignores unless it supports them. The first letter of a Hangul syllable
without a consonant is not among them: it stands for the whole syllable. -/
def isIgnorable (c : Char) : Bool :=
  let n := c.toNat
  n == 0xad || n == 0x34f || n == 0x61c || n == 0x1160 || (0x17b4 ≤ n && n ≤ 0x17b5) ||
    (0x180b ≤ n && n ≤ 0x180f) || (0x200b ≤ n && n ≤ 0x200f) || (0x202a ≤ n && n ≤ 0x202e) ||
    (0x2060 ≤ n && n ≤ 0x206f) || n == 0x3164 || (0xfe00 ≤ n && n ≤ 0xfe0f) || n == 0xfeff ||
    n == 0xffa0 || (0xfff0 ≤ n && n ≤ 0xfff8) || (0x1bca0 ≤ n && n ≤ 0x1bca3) ||
    (0x1d173 ≤ n && n ≤ 0x1d17a) || (0xe0000 ≤ n && n ≤ 0xe0fff)

/-- A vowel or final consonant inside a Hangul syllable. -/
def isHangulInner (c : Char) : Bool :=
  let n := c.toNat
  (0x1160 ≤ n && n ≤ 0x11ff) || (0xd7b0 ≤ n && n ≤ 0xd7c6) || (0xd7cb ≤ n && n ≤ 0xd7fb)

/-- A sign written over, under or inside the characters that follow it. -/
def isSpanningSign (c : Char) : Bool :=
  inRanges [(0x605, 0x605), (0x70f, 0x70f), (0x890, 0x891), (0x8e2, 0x8e2), (0xd4e, 0xd4e),
    (0xa8fa, 0xa8fa), (0x111c2, 0x111c3), (0x113d1, 0x113d1), (0x1193f, 0x1193f),
    (0x11941, 0x11941), (0x11a3a, 0x11a3a), (0x11a84, 0x11a89), (0x11d46, 0x11d46),
    (0x11f02, 0x11f02)] c.toNat

/-- The joiner of two Tifinagh consonants, drawn where it joins none. -/
def tifinaghJoiner : Char := '\u2d7f'

/-- The Khmer sign for "and so on", drawn as three letters. -/
def khmerEtCetera : Char := '\u17d8'

/-- The columns of one character. -/
def charWidth (c : Char) : Nat :=
  if c.toNat ≤ 0xa0 || c == tifinaghJoiner then 1
  else if isIgnorable c || isHangulInner c || isSpanningSign c || extendsGrapheme c then 0
  else if c == khmerEtCetera then 3
  else if inRanges wideRanges c.toNat then 2
  else 1

end WarcStream.Text
