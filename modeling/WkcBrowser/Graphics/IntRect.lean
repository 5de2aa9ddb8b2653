import Mathlib.Order.Lattice
import Mathlib.Order.Nat

/-! `IntRect` of WebCore's `platform/graphics` directory, with coordinates that do not overflow. -/

namespace WkcBrowser.Graphics

structure IntPoint where
  x : Int
  y : Int
deriving DecidableEq

structure IntRect where
  x : Int := 0
  y : Int := 0
  width : Int := 0
  height : Int := 0
deriving DecidableEq

namespace IntRect

variable (a b : IntRect)

def right : Int := a.x + a.width

def bottom : Int := a.y + a.height

def isEmpty : Bool := a.width ≤ 0 || a.height ≤ 0

def center : IntPoint := ⟨a.x + a.width.tdiv 2, a.y + a.height.tdiv 2⟩

def intersects : Bool :=
  !a.isEmpty && !b.isEmpty && a.x < b.right && b.x < a.right && a.y < b.bottom && b.y < a.bottom

def contains : Bool := a.x ≤ b.x && a.right ≥ b.right && a.y ≤ b.y && a.bottom ≥ b.bottom

def move (dx dy : Int) : IntRect := { a with x := a.x + dx, y := a.y + dy }

def inflate (d : Int) : IntRect :=
  ⟨a.x - d, a.y - d, a.width + d + d, a.height + d + d⟩

def intersect : IntRect :=
  let l := max a.x b.x
  let t := max a.y b.y
  let r := min a.right b.right
  let bottom := min a.bottom b.bottom
  if r ≤ l ∨ bottom ≤ t then ⟨0, 0, 0, 0⟩ else ⟨l, t, r - l, bottom - t⟩

/-- The rectangle with its axes exchanged. -/
def transpose : IntRect := ⟨a.y, a.x, a.height, a.width⟩

/-- The rectangle mirrored at the vertical axis. -/
def mirror : IntRect := { a with x := -a.right }

end IntRect

end WkcBrowser.Graphics
