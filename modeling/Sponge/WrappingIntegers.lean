import Sponge.Data.SizeT

namespace Sponge

structure WrappingInt32 where
  rawValue : UInt32
  deriving DecidableEq, Repr

def wrap (n : Nat) (isn : WrappingInt32) : WrappingInt32 :=
  let i := UInt32.ofNat (n &&& 0xFFFFFFFF)
  ⟨i + isn.rawValue⟩

def unwrap (n isn : WrappingInt32) (checkpoint : Nat) : Nat :=
  let m := wrap checkpoint isn
  let offset := n.rawValue - m.rawValue
  if offset.toNat < 2 ^ 31 ∨ checkpoint < 2 ^ 32 - offset.toNat then
    SizeT.add checkpoint offset.toNat
  else
    SizeT.add (SizeT.sub checkpoint (2 ^ 32)) offset.toNat

theorem WrappingInt32.ext_toNat {left right : WrappingInt32}
    (equal : left.rawValue.toNat = right.rawValue.toNat) : left = right := by
  cases left
  cases right
  exact congrArg WrappingInt32.mk (UInt32.toNat_inj.mp equal)

theorem toNat_wrap (n : Nat) (isn : WrappingInt32) :
    (wrap n isn).rawValue.toNat = (n + isn.rawValue.toNat) % 2 ^ 32 := by
  have mask : n &&& 0xFFFFFFFF = n % 2 ^ 32 := Nat.and_two_pow_sub_one_eq_mod n 32
  simp only [wrap, mask, UInt32.toNat_add, UInt32.toNat_ofNat']
  omega

theorem toNat_sub_wrap (n isn : WrappingInt32) (checkpoint : Nat) :
    (n.rawValue - (wrap checkpoint isn).rawValue).toNat =
      (n.rawValue.toNat + 2 ^ 32 -
        (checkpoint + isn.rawValue.toNat) % 2 ^ 32) % 2 ^ 32 := by
  have below := n.rawValue.toNat_lt
  rw [UInt32.toNat_sub, toNat_wrap]
  omega

theorem wrap_eq_wrap_iff (left right : Nat) (isn : WrappingInt32) :
    wrap left isn = wrap right isn ↔ left % 2 ^ 32 = right % 2 ^ 32 := by
  constructor
  · intro equal
    have values := congrArg (fun number => number.rawValue.toNat) equal
    simp only [toNat_wrap] at values
    omega
  · intro equal
    apply WrappingInt32.ext_toNat
    rw [toNat_wrap, toNat_wrap]
    omega

theorem wrap_zero (isn : WrappingInt32) : wrap 0 isn = isn := by
  apply WrappingInt32.ext_toNat
  have below := isn.rawValue.toNat_lt
  rw [toNat_wrap]
  omega

theorem wrap_succ_pred (n : Nat) (isn : WrappingInt32) :
    (⟨(wrap (n + 1) isn).rawValue - 1⟩ : WrappingInt32) = wrap n isn := by
  apply WrappingInt32.ext_toNat
  have one : (1 : UInt32).toNat = 1 := rfl
  rw [UInt32.toNat_sub, toNat_wrap, toNat_wrap, one]
  omega

/-- The absolute number that `unwrap` means, before it is reduced to 64 bits: less than
half the number space away from the checkpoint, or ahead of it in the first turn. -/
theorem unwrap_candidate (n isn : WrappingInt32) (checkpoint : Nat) :
    ∃ number, wrap number isn = n ∧ unwrap n isn checkpoint = number % 2 ^ 64 ∧
      ((checkpoint ≤ number + 2 ^ 31 ∧ number < checkpoint + 2 ^ 31) ∨
        (checkpoint + 2 ^ 31 ≤ number ∧ number < 2 ^ 32)) := by
  have nBound := n.rawValue.toNat_lt
  have offset := toNat_sub_wrap n isn checkpoint
  have wraps : ∀ number, (number + isn.rawValue.toNat) % 2 ^ 32 = n.rawValue.toNat →
      wrap number isn = n := by
    intro number same
    apply WrappingInt32.ext_toNat
    rw [toNat_wrap, same]
  unfold unwrap
  simp only [offset, SizeT.add, SizeT.sub]
  split
  next near =>
    refine ⟨checkpoint + (n.rawValue.toNat + 2 ^ 32 -
      (checkpoint + isn.rawValue.toNat) % 2 ^ 32) % 2 ^ 32, wraps _ ?_, rfl, ?_⟩ <;> omega
  next far =>
    refine ⟨checkpoint + (n.rawValue.toNat + 2 ^ 32 -
      (checkpoint + isn.rawValue.toNat) % 2 ^ 32) % 2 ^ 32 - 2 ^ 32, wraps _ ?_, ?_, ?_⟩ <;>
      omega

/-- Around a checkpoint less than half the number space away, `unwrap` undoes
`wrap`. -/
theorem unwrap_wrap {n checkpoint : Nat} (isn : WrappingInt32)
    (fits : n < 2 ^ 64) (below : n < checkpoint + 2 ^ 31)
    (above : checkpoint < n + 2 ^ 31) :
    unwrap (wrap n isn) isn checkpoint = n := by
  obtain ⟨number, wraps, unwrapped, range⟩ := unwrap_candidate (wrap n isn) isn checkpoint
  have turn := (wrap_eq_wrap_iff number n isn).mp wraps
  rw [unwrapped]
  omega

theorem wrap_unwrap (n isn : WrappingInt32) {checkpoint : Nat}
    (bound : checkpoint ≤ 2 ^ 64 - 2 ^ 31) : wrap (unwrap n isn checkpoint) isn = n := by
  obtain ⟨number, wraps, unwrapped, range⟩ := unwrap_candidate n isn checkpoint
  rw [unwrapped, Nat.mod_eq_of_lt (by omega), wraps]

theorem wrap_add (first second : Nat) (isn : WrappingInt32) :
    wrap (first + second) isn = wrap second (wrap first isn) := by
  apply WrappingInt32.ext_toNat
  rw [toNat_wrap, toNat_wrap, toNat_wrap]
  omega

theorem unwrap_wrap_ahead {n checkpoint : Nat} (isn : WrappingInt32)
    (firstTurn : n < 2 ^ 32) (ahead : checkpoint ≤ n) :
    unwrap (wrap n isn) isn checkpoint = n := by
  -- Before the first turn of the number space is complete there is nothing below.
  obtain ⟨number, wraps, unwrapped, range⟩ := unwrap_candidate (wrap n isn) isn checkpoint
  have turn := (wrap_eq_wrap_iff number n isn).mp wraps
  rw [unwrapped]
  omega

theorem unwrap_zero (n isn : WrappingInt32) :
    unwrap n isn 0 = (n.rawValue - isn.rawValue).toNat := by
  have bound := (n.rawValue - isn.rawValue).toNat_lt
  unfold unwrap
  simp only [wrap_zero, SizeT.add, SizeT.sub]
  split <;> omega

theorem unwrap_wrap_zero (n : Nat) (isn : WrappingInt32) :
    unwrap (wrap n isn) isn 0 = n % 2 ^ 32 := by
  have isnBound := isn.rawValue.toNat_lt
  rw [unwrap_zero, UInt32.toNat_sub, toNat_wrap]
  omega

/-- The nearest number with no wrap-around: the distance to the checkpoint is added to
it, or that minus one turn of the number space, in exact arithmetic. -/
structure Nearest (n isn : WrappingInt32) (checkpoint number : Nat) : Prop where
  wraps : wrap number isn = n
  fits : number < 2 ^ 64
  distance : number = checkpoint + (n.rawValue - (wrap checkpoint isn).rawValue).toNat ∨
    number + 2 ^ 32 = checkpoint + (n.rawValue - (wrap checkpoint isn).rawValue).toNat
  nearest : ∀ other < 2 ^ 64, wrap other isn = n →
    ((number : Int) - checkpoint).natAbs ≤ ((other : Int) - checkpoint).natAbs

theorem unwrap_nearest (n isn : WrappingInt32) {checkpoint : Nat}
    (bound : checkpoint ≤ 2 ^ 64 - 2 ^ 31) :
    Nearest n isn checkpoint (unwrap n isn checkpoint) ∧
      ∀ number : Nat, ((number : Int) - checkpoint).natAbs < 2 ^ 31 →
        unwrap (wrap number isn) isn checkpoint = number := by
  obtain ⟨number, wraps, unwrapped, range⟩ := unwrap_candidate n isn checkpoint
  have fits : number < 2 ^ 64 := by omega
  rw [Nat.mod_eq_of_lt fits] at unwrapped
  refine ⟨⟨?_, ?_, ?_, ?_⟩, ?_⟩
  · rw [unwrapped, wraps]
  · rw [unwrapped]
    exact fits
  · have offset := toNat_sub_wrap n isn checkpoint
    rw [unwrapped, offset, ← wraps, toNat_wrap]
    omega
  · intro other _ same
    rw [unwrapped]
    have turn := (wrap_eq_wrap_iff number other isn).mp (wraps.trans same.symm)
    omega
  · intro other near
    exact unwrap_wrap isn (by omega) (by omega) (by omega)

theorem unwrap_nearest_behind :
    unwrap ⟨5⟩ ⟨10⟩ (2 ^ 33) = 2 ^ 33 - 5 ∧
      Nearest ⟨5⟩ ⟨10⟩ (2 ^ 33) (unwrap ⟨5⟩ ⟨10⟩ (2 ^ 33)) :=
  ⟨by decide, (unwrap_nearest ⟨5⟩ ⟨10⟩ (by decide)).1⟩

end Sponge
