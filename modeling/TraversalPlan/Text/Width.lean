import TraversalPlan.Text.Property.Basic
import TraversalPlan.Text.Property.Columns
import TraversalPlan.Text.Property.Combining
import TraversalPlan.Text.Property.Emoji

/-!
# Width of text

How many columns a text takes on a screen. A character by itself takes one or two columns, or none if
it is drawn on another. In some sequences a character takes fewer than by itself: emoji that are
joined to one picture, characters with a selector after them, and letters that are written as one.

* `Width.ofChar`: the columns of a character by itself.
* `Start`, `Following`: what the text after a character means for it.
* `Width.before`: the columns that a character adds before a text.
* `Width.ofText`: the columns of a text, counted from its end.
-/

namespace TraversalPlan

/-! ## What a text begins with -/

/-- The second part of letters that are written as one. -/
inductive LetterEnd where
  | lamed
  | ya
  /-- The vowel sign and the letter `ya`, joined. -/
  | signYa
  | tifinagh
  /-- The consonant joiner and a consonant. -/
  | tifinaghJoined
  | lisuTone
  | orkhonI
  /-- A letter that is written below another after the sign `coeng`. -/
  | khmer
deriving DecidableEq, Repr

/-- What a text begins with, as far as it matters to the character before it. -/
inductive Start where
  | other
  | lineFeed
  /-- A skin tone. -/
  | tone
  /-- One letter of a flag. -/
  | flagLetter
  /-- At least two letters of flags. -/
  | flagLetters
  | picture
  /-- A joiner and a picture. -/
  | joined
  /-- The sign of a key, a joiner and a picture. -/
  | joinedKey
  /-- One letter of a flag, a joiner and a picture. -/
  | joinedFlagLetter
  /-- An even number of letters of flags, a joiner and a picture. -/
  | joinedFlags
  /-- An odd number of letters of flags, at least three, a joiner and a picture. -/
  | joinedOddFlags
  /-- Some tag letters, the end of tags, a joiner and a picture. -/
  | tagLetters (count : Nat)
  /-- Some tag digits, the end of tags, a joiner and a picture. -/
  | tagDigits (count : Nat)
  /-- The Arabic letter `alef`. -/
  | alef
  /-- The second part of joined letters, with whether a joiner stands before it. -/
  | letter (part : LetterEnd) (joiner : Bool)
  /-- The vowel sign `e` of Kirat Rai. -/
  | kiratE
  /-- The vowel sign `ai` of Kirat Rai. -/
  | kiratAi
deriving DecidableEq, Repr

namespace Start

/-- A letter that keeps its meaning across selectors. -/
def isLetter : Start → Bool
  | alef => true
  | letter _ _ => true
  | _ => false

/-- A picture that goes on before its joiner. -/
def isJoined : Start → Bool
  | joined => true
  | joinedKey => true
  | _ => false

end Start

/-- What the text after a character begins with, and the selectors in front of that. -/
structure Following where
  start : Start
  /-- A selector of emoji style. -/
  emoji : Bool
  /-- A selector of text style. -/
  text : Bool
  /-- A selector of full width. -/
  full : Bool
deriving DecidableEq, Repr

namespace Following

def of (s : Start) : Following := ⟨s, false, false, false⟩

/-- Nothing that matters. -/
def nothing : Following := of .other

/-- With a selector of emoji style in front. -/
def withEmoji (f : Following) : Following :=
  if f.start.isLetter || f.start.isJoined then { f with emoji := true }
  else ⟨.other, true, false, false⟩

/-- With a selector of text style in front. -/
def withText (f : Following) : Following :=
  if f.start.isLetter then { f with text := true } else ⟨.other, false, true, false⟩

/-- With a selector of full width in front. -/
def withFull (f : Following) : Following :=
  if f.start.isLetter then { f with full := true } else ⟨.other, false, false, true⟩

/-- Without a selector of emoji style that has no effect. -/
def dropEmoji (f : Following) : Following :=
  if !f.emoji then f else if f.start.isLetter then { f with emoji := false } else nothing

/-- With a joiner in front. -/
def withJoiner (f : Following) : Following :=
  match f.start with
  | .letter part _ => { f with start := .letter part true }
  | _ => f

end Following

/-! ## Characters -/

namespace Width

def emojiSelector : Nat := 0xfe0f

def textSelector : Nat := 0xfe0e

def fullSelector : Nat := 0xfe01

def joiner : Nat := 0x200d

def isFlagLetter (c : Nat) : Bool := 0x1f1e6 ≤ c && c ≤ 0x1f1ff

def isTone (c : Nat) : Bool := 0x1f3fb ≤ c && c ≤ 0x1f3ff

/-- An emoji for which emoji style is defined, so that it may have a selector after it. -/
def takesEmojiSelector (c : Nat) : Bool :=
  Property.holds Property.restyled c || Property.holds Property.symbols c

/-- A picture that takes one column in text style. Squared ideographs take two in any style. -/
def takesTextSelector (c : Nat) : Bool :=
  Property.holds Property.restyled c && !(0x1f200 ≤ c && c ≤ 0x1f2ff)

/-- A quotation mark, which has a form of full width. -/
def isQuotation (c : Nat) : Bool := c = 0x2018 || c = 0x2019 || c = 0x201c || c = 0x201d

/-- An ignorable mark or a joiner, which joined letters may have between them. -/
def isTransparent (c : Nat) : Bool :=
  Property.holds [(0x34f, 0x34f), (0x17b4, 0x17b5), (0x180b, 0x180d), (0x180f, 0x180f),
    (0x200d, 0x200d), (0xfe00, 0xfe0f), (0xe0100, 0xe01ef)] c

def isAlef (c : Nat) : Bool :=
  Property.holds [(0x622, 0x623), (0x625, 0x625), (0x627, 0x627), (0x671, 0x673), (0x675, 0x675),
    (0x773, 0x774), (0x870, 0x882)] c

def isLam (c : Nat) : Bool :=
  Property.holds [(0x644, 0x644), (0x6b5, 0x6b8), (0x76a, 0x76a), (0x8a6, 0x8a6), (0x8c7, 0x8c7)] c

def isTifinagh (c : Nat) : Bool := Property.holds [(0x2d31, 0x2d65), (0x2d6f, 0x2d6f)] c

/-- A Khmer letter that can be written below another. -/
def isKhmer (c : Nat) : Bool :=
  Property.holds [(0x1780, 0x1782), (0x1784, 0x1787), (0x1789, 0x178c), (0x178e, 0x1793),
    (0x1795, 0x1798), (0x179b, 0x179d), (0x17a0, 0x17a0), (0x17a2, 0x17a2), (0x17a7, 0x17a7),
    (0x17ab, 0x17ac), (0x17af, 0x17af)] c

def isTagLetter (c : Nat) : Bool := 0xe0061 ≤ c && c ≤ 0xe007a

def isTagDigit (c : Nat) : Bool := 0xe0030 ≤ c && c ≤ 0xe0039

/-- A character that takes no column by itself. The filler before the vowels of a syllable block keeps
the columns of the block, and the Tifinagh joiner is drawn where it joins nothing. -/
def isColumnless (c : Nat) : Bool :=
  c ≠ 0x115f && c ≠ 0x2d7f &&
    (Property.holds Property.ignorable c || Property.holds Property.extending c ||
      Property.holds Property.medial c || Property.holds Property.leading c ||
      Property.holds [(0x605, 0x605), (0x70f, 0x70f), (0x890, 0x891), (0x8e2, 0x8e2),
        (0xa8fa, 0xa8fa)] c)

/-- A character that Arabic letters on both sides of it join across. -/
def isBetweenLetters (c : Nat) : Bool :=
  isColumnless c && !Property.holds Property.separating c

/-- The columns of a character by itself. -/
def ofChar (c : Nat) : Nat :=
  if c ≤ 0xa0 then 1
  else if c = 0x17a4 then 2
  else if c = 0x17d8 then 3
  else if isColumnless c then 0
  else if Property.holds Property.wide c then 2
  else 1

/-- What a text begins with that begins with a character. -/
def start (c : Nat) : Start :=
  if c = 0x5dc then .letter .lamed false
  else if isAlef c then .alef
  else if isKhmer c then .letter .khmer false
  else if c = 0x1a10 then .letter .ya false
  else if isTifinagh c then .letter .tifinagh false
  else if c = 0xa4fc || c = 0xa4fd then .letter .lisuTone false
  else if c = 0x10c03 then .letter .orkhonI false
  else if c = 0x16d67 then .kiratE
  else if c = 0x16d68 then .kiratAi
  else if isFlagLetter c then .flagLetter
  else if isTone c then .tone
  else if Property.holds Property.pictures c then .picture
  else .other

/-! ## Sequences -/

/-- A character that the text after it does nothing to. -/
def alone (c : Nat) : Int × Following :=
  if c = emojiSelector then (0, Following.nothing.withEmoji)
  else if c = textSelector then (0, Following.nothing.withText)
  else if c = fullSelector then (0, Following.nothing.withFull)
  else ((ofChar c : Int), .of (start c))

/-- A character before the second part of joined letters. -/
def beforeLetter (c : Nat) (part : LetterEnd) (afterJoiner : Bool) : Int × Following :=
  match part, afterJoiner with
  | .lamed, true => if c = 0x5d0 then (0, .nothing) else alone c
  | .khmer, _ => if c = 0x17d2 then (-1, .nothing) else alone c
  | .ya, true => if c = 0x1a17 then (0, .of (.letter .signYa true)) else alone c
  | .signYa, _ => if c = 0x1a15 then (0, .nothing) else alone c
  | .tifinagh, j =>
    if c = 0x2d7f then (1, .of (.letter .tifinaghJoined true))
    else if j && isTifinagh c then (0, .nothing)
    else alone c
  | .tifinaghJoined, _ => if isTifinagh c then (-1, .nothing) else alone c
  | .lisuTone, _ => if 0xa4f8 ≤ c && c ≤ 0xa4fb then (0, .nothing) else alone c
  | .orkhonI, true => if c = 0x10c32 then (0, .nothing) else alone c
  | _, _ => alone c

/-- A character before a joiner and a picture. -/
def beforeJoined (c : Nat) : Int × Following :=
  if c = 0x20e3 then (0, .of .joinedKey)
  else if isFlagLetter c then (1, .of .joinedFlagLetter)
  else if isTone c then (0, .of .tone)
  else if c = 0xe007f then (0, .of (.tagLetters 0))
  else if Property.holds Property.pictures c then (0, .of .picture)
  else alone c

/-- A character before tags. Tags belong to a black flag and are three to six letters, or three digits
and then at most four letters. -/
def beforeTags (c : Nat) (letters digits : Nat) : Int × Following :=
  if isTagLetter c && digits = 0 && letters < 6 then (0, .of (.tagLetters (letters + 1)))
  else if isTagDigit c && digits < 3 && letters < 5 then (0, .of (.tagDigits (digits + 1)))
  else if c = 0x1f3f4 && (digits = 3 || (digits = 0 && 3 ≤ letters)) then (0, .of .picture)
  else alone c

/-- A character before a text without selectors in front. -/
def beforeStart (c : Nat) (s : Start) : Int × Following :=
  match s with
  | .alef =>
    if isLam c then (0, .nothing)
    else if isBetweenLetters c then (0, .of .alef)
    else alone c
  | .letter part j => beforeLetter c part j
  | .tone =>
    if Property.holds Property.modifiable c then (0, .of .picture)
    else if c = joiner then (0, .of .joined)
    else alone c
  | .flagLetter => if isFlagLetter c then (1, .of .flagLetters) else alone c
  | .flagLetters =>
    if isFlagLetter c then (1, .of .flagLetters)
    else if c = joiner then (0, .of .joined)
    else alone c
  | .picture => if c = joiner then (0, .of .joined) else alone c
  | .joined => beforeJoined c
  | .joinedFlagLetter => if isFlagLetter c then (-1, .of .joinedFlags) else alone c
  | .joinedFlags =>
    if isFlagLetter c then (3, .of .joinedOddFlags)
    else if c = joiner then (0, .of .joined)
    else alone c
  | .joinedOddFlags =>
    if isFlagLetter c then (-1, .of .joinedFlags)
    else if c = joiner then (0, .of .joined)
    else alone c
  | .tagLetters n => beforeTags c n 0
  | .tagDigits n => beforeTags c 0 n
  | .kiratE =>
    if c = 0x16d63 || c = 0x16d69 then (0, .nothing)
    else if c = 0x16d67 then (0, .of .kiratAi)
    else if c = 0x16d68 then (1, .of .kiratE)
    else alone c
  | .kiratAi => if c = 0x16d63 then (0, .nothing) else alone c
  | _ => alone c

/-- A character before a text that matters to it. -/
def beforeFollowing (c : Nat) (f : Following) : Int × Following :=
  if c = emojiSelector then (0, f.withEmoji)
  else if c = textSelector then (0, f.withText)
  else if c = fullSelector then (0, f.withFull)
  else if f.text && takesTextSelector c then (1, .nothing)
  else if !f.text && f.full && isQuotation c then (2, .nothing)
  else
    match f.start with
    | .letter part j =>
      if c = joiner then (0, .of (.letter part true))
      else if isTransparent c then (0, .of (.letter part j))
      else beforeLetter c part j
    | s => beforeStart c s

/-- A character of the first 160 code points or a blank after them. A line break is one column. -/
def beforeNarrow (c : Nat) (f : Following) : Int × Following :=
  if c = 10 then (1, .of .lineFeed)
  else if c = 13 && f = .of .lineFeed then (0, .nothing)
  else (1, .nothing)

/-- The columns that a character adds before a text, and what the longer text begins with. -/
def before (c : Nat) (f : Following) : Int × Following :=
  if f.emoji && takesEmojiSelector c then
    (if f.start.isJoined then 0 else 2, .of .picture)
  else if c ≤ 0xa0 then beforeNarrow c f.dropEmoji
  else if f.dropEmoji = .nothing then alone c
  else beforeFollowing c f.dropEmoji

/-! ## Texts -/

/-- The columns of a text and what it begins with. -/
def scan : List Char → Int × Following
  | [] => (0, .nothing)
  | c :: cs =>
    let (columns, f) := scan cs
    let (more, f) := before c.toNat f
    (columns + more, f)

/-- The columns of a text. -/
def ofText (s : String) : Nat := (scan s.toList).1.toNat

end Width
end TraversalPlan
