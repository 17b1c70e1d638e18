import TMEdge.Protocol.Packet

/-!
# Writing bytes

What `leBytes` puts into a buffer is what the readers take out of it, at whatever place.
-/

namespace TMEdge.Protocol

/-! ## Little-endian numbers -/

@[simp] theorem length_leBytes (n v : Nat) : (leBytes n v).length = n := by
  induction n generalizing v with
  | zero => rfl
  | succ n ih => simp [leBytes, ih]

theorem leValue_leBytes {n v : Nat} (h : v < 256 ^ n) : leValue (leBytes n v) = v := by
  induction n generalizing v with
  | zero =>
    have hZero : v = 0 := by simpa using h
    rw [hZero]
    rfl
  | succ n ih =>
    have hDiv : v / 256 < 256 ^ n := by
      rw [pow_succ] at h
      omega
    have hLow : (UInt8.ofNat v).toNat = v % 256 := rfl
    rw [leBytes, leValue, ih hDiv, hLow]
    omega

/-! ## Places -/

theorem subarray_mid (a b c : Buffer) : subarray (a ++ (b ++ c)) a.length (a.length + b.length) = b := by
  simp [subarray]

theorem subarray_at {w a b c : Buffer} {i j : Nat} (hw : w = a ++ (b ++ c)) (hi : i = a.length)
    (hj : j = i + b.length) : subarray w i j = b := by
  subst hw hi hj
  exact subarray_mid a b c

theorem drop_at {w a b : Buffer} {i : Nat} (hw : w = a ++ b) (hi : i = a.length) :
    w.drop i = b := by
  subst hw hi
  simp

end TMEdge.Protocol
