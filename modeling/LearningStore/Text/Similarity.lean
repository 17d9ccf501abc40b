/-!
# Similarity of words

How alike two words are.  A character of one word and an equal character of the other
are partners if they stand near each other, and no character has two partners.  Two
words are the more alike, the larger the share of characters with a partner is in
both, and the fewer partners stand in another order.
-/

namespace LearningStore.Text

/-- A character of a word, and whether it has a partner already. -/
structure Place where
  char : Char
  taken : Bool
deriving DecidableEq, Repr

namespace Place

/-- The places of a word, none of them taken. -/
def ofWord (word : List Char) : List Place :=
  word.map (⟨·, false⟩)

/-- Take the first free place of a character among those with a number from `low` up
to but not with `high`. -/
def claim? (c : Char) : (low high : Nat) → List Place → Option (List Place)
  | _, 0, _ => none
  | _, _, [] => none
  | 0, high + 1, p :: rest =>
      if p.char = c ∧ p.taken = false then some (⟨c, true⟩ :: rest)
      else (claim? c 0 high rest).map (p :: ·)
  | low + 1, high + 1, p :: rest => (claim? c low high rest).map (p :: ·)

/-- The characters of the taken places. -/
def takenChars (places : List Place) : List Char :=
  (places.filter Place.taken).map Place.char

end Place

/-- The characters of two words that have a partner, each in the order of its word. -/
structure Partners where
  left : List Char
  right : List Char
deriving DecidableEq, Repr

namespace Partners

/-- Look for a partner of each character in turn, the first of them being number `i`.
Partners stand at most `reach` places apart. -/
def find (reach : Nat) : (i : Nat) → List Char → List Place → Partners
  | _, [], places => ⟨[], Place.takenChars places⟩
  | i, c :: rest, places =>
      match Place.claim? c (i - reach) (i + reach + 1) places with
      | none => find reach (i + 1) rest places
      | some places =>
          let found := find reach (i + 1) rest places
          ⟨c :: found.left, found.right⟩

/-- The partners of two words.  They stand less than half of the longer word apart. -/
def ofWords (a b : List Char) : Partners :=
  find (max a.length b.length / 2 - 1) 0 a (Place.ofWord b)

/-- The number of pairs of partners. -/
def count (p : Partners) : Nat :=
  p.left.length

/-- The number of exchanges that bring the partners into the same order. -/
def exchanges (p : Partners) : Nat :=
  ((p.left.zip p.right).filter fun (c, d) => c ≠ d).length / 2

end Partners

/-- How alike two words are, from 0 for words without partners to 1 for a word and
itself: the mean of three shares, those of the characters with a partner in either
word and that of the partners in the same order. -/
def similarity (a b : String) : Float :=
  let partners := Partners.ofWords a.toList b.toList
  if partners.count = 0 then 0
  else
    let count := Float.ofNat partners.count
    (count / Float.ofNat a.length + count / Float.ofNat b.length +
      Float.ofNat (partners.count - partners.exchanges) / count) / 3

/-- Words have to be more alike than this to be taken for each other. -/
def similarityBound : Float := 0.7

/-- The candidate whose word is most like a word, if one is alike enough.  Of several
it is the last. -/
def mostSimilar? {α : Type} (word : String) (wordOf : α → String) (candidates : List α) :
    Option α :=
  let best := candidates.foldl (fun best candidate =>
    let s := similarity word (wordOf candidate)
    if similarityBound < s ∧ best.all (fun (_, t) => t ≤ s) then some (candidate, s)
    else best) none
  best.map Prod.fst

end LearningStore.Text
