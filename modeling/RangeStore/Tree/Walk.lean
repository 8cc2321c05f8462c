import RangeStore.Tree.Cursor
set_option autoImplicit false

/-! # Walks

A walk takes a cursor step after step: a number of times, or until it stands on no entry. A step
that fails ends the walk. -/

namespace RangeStore

/-- What a walk to the end of a tree has met. -/
structure Walk where
  /-- The entries on which the cursor stood, in the order of the walk. -/
  entries : List Cell
  /-- The failure that has ended the walk early. -/
  failure : Option StoreError
  last : Cursor

namespace Cursor

/-- Steps a number of times, or until a step fails. -/
def stepMany (s : NodeSource) (direction : Direction) :
    (count : Nat) → Cursor → Except StoreError Unit × Cursor
  | 0, c => (.ok (), c)
  | count + 1, c =>
    match c.step s direction with
    | (.error e, c) => (.error e, c)
    | (.ok (), c) => stepMany s direction count c

/-- Steps at most `bound` times. -/
def walkFrom (s : NodeSource) (direction : Direction) : (bound : Nat) → Cursor → Walk
  | 0, c => ⟨[], some .endless, c⟩
  | bound + 1, c =>
    match c.entry? with
    | Option.none => ⟨[], Option.none, c⟩
    | some entry =>
      match c.step s direction with
      | (.error e, c) => ⟨[entry], some e, c⟩
      | (.ok (), c) =>
        let rest := walkFrom s direction bound c
        { rest with entries := entry :: rest.entries }

/-- Steps until the cursor stands on no entry, or a step fails. -/
def walk (s : NodeSource) (direction : Direction) (c : Cursor) : Walk :=
  walkFrom s direction (c.walkBound s) c

end Cursor

namespace NodeSource

/-- All entries of a tree in order, and its depth. -/
def content (s : NodeSource) (root : PageId) : Except StoreError (Nat × List Cell) :=
  match Cursor.seekLE s root [] with
  | .error e => .error e
  | .ok c =>
    let w := c.walk s .ascending
    match w.failure with
    | some e => .error e
    | none => .ok (c.depth, w.entries)

end NodeSource

end RangeStore
