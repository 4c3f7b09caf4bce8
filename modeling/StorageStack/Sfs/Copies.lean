import StorageStack.Sfs.Transfer

/-!
# The copies of a transfer

A transfer makes one copy for each block that it meets. Every copy of a write takes the front of the buffer, and
every copy of a read lands there, both up to the first zero and with zeros behind that.
-/

namespace StorageStack.Sfs
open Lib CString

/-- Where the copies of a transfer of `n` bytes from `p` on start, and how many bytes each of them takes. -/
def copiesFrom : (blocks p n : Nat) → List (Nat × Nat)
  | 0, _, _ => []
  | blocks + 1, p, n => (p, min n (512 - p % 512)) :: copiesFrom blocks (p + min n (512 - p % 512)) (n - min n (512 - p % 512))

def copies (p n : Nat) : List (Nat × Nat) := copiesFrom ((p + n) / 512 - p / 512 + 1) p n

/-- The bytes that the copies of a write store, one behind the other. -/
def taken (buf : List UInt8) (parts : List (Nat × Nat)) : List UInt8 := parts.flatMap fun c => padded (buf.take c.2)

/-- The buffer after the copies of a read. -/
def landed (byte : Nat → UInt8) (parts : List (Nat × Nat)) (buf : List UInt8) : List UInt8 :=
  parts.foldl (fun buf c => overlay buf 0 (padded ((List.range c.2).map fun i => byte (c.1 + i)))) buf

variable {own : Owners} {s : State} {d : Image} {fs : List Nat} {inode blocks n p : Nat} {slot : Fin 32} {buf : List UInt8}

theorem length_taken (source : n ≤ buf.length) (inside : n = 0 ∨ p % 512 + n ≤ 512 * blocks) :
    (taken buf (copiesFrom blocks p n)).length = n := by
  induction blocks generalizing p n with
  | zero =>
    obtain rfl : n = 0 := by omega
    rfl
  | succ blocks ih =>
    have rest := @ih (n - min n (512 - p % 512)) (p + min n (512 - p % 512)) (by omega) (by omega)
    unfold taken at rest ⊢
    rw [copiesFrom, List.flatMap_cons, List.length_append, rest, length_padded, List.length_take]
    omega

theorem landed_nothing (byte : Nat → UInt8) (blocks p : Nat) (buf : List UInt8) :
    landed byte (copiesFrom blocks p 0) buf = buf := by
  induction blocks generalizing p with
  | zero => rfl
  | succ blocks ih =>
    have none : padded ((List.range 0).map fun i => byte (p + i)) = [] := rfl
    rw [copiesFrom, Nat.zero_min, landed, List.foldl_cons]
    dsimp only
    rw [none, overlay_nil]
    exact ih _

theorem landed_congr {byte byte' : Nat → UInt8} (same : ∀ i, p ≤ i → i < p + n → byte i = byte' i) :
    landed byte (copiesFrom blocks p n) buf = landed byte' (copiesFrom blocks p n) buf := by
  induction blocks generalizing p n buf with
  | zero => rfl
  | succ blocks ih =>
    have here : ((List.range (min n (512 - p % 512))).map fun i => byte (p + i)) =
        (List.range (min n (512 - p % 512))).map fun i => byte' (p + i) := by
      refine List.map_congr_left fun i member => same _ (by omega) ?_
      have inside := List.mem_range.mp member
      omega
    unfold landed at ih ⊢
    rw [copiesFrom, List.foldl_cons, List.foldl_cons]
    dsimp only
    rw [here]
    exact ih fun i low high => same i (by omega) (by omega)

/-- The amount of one copy. -/
theorem toCopy_eq (offset remaining : Nat) (inBlock : offset < 512) : toCopy offset remaining = min remaining (512 - offset) := by
  rcases @toCopy_cases offset remaining inBlock with ⟨amount, _⟩ | ⟨amount, _⟩ | ⟨amount, _⟩ <;> omega

/-! ### Writing -/

/-- What the main loop of `sfs_write` stores in the blocks of a file. -/
theorem writeLoop_copies (blocks first offset : Nat) (ready : Ready own s slot inode fs) (source : n ≤ buf.length)
    (place : n = 0 ∨ (offset = p % 512 ∧ first = p / 512)) (inside : n = 0 ∨ p % 512 + n ≤ 512 * blocks)
    (position : p + n < 4294967296) (frames : first + blocks ≤ 127 * fs.length)
    (named : ∀ k, first ≤ k → k < first + blocks → entryAt s.disk fs k ≠ 0) :
    ∃ d, writeLoop buf ((List.range' first blocks).map (entryAt s.disk fs)) n offset p s.disk = .ok (p + n, d) ∧
      Ready own { s with disk := d } slot inode fs ∧
      (∀ b, Owners.role own b ≠ some .data → own b ≠ none → d.read b = s.disk.read b) ∧
      ∀ q < 65024 * fs.length, byteAt d fs q =
        if p ≤ q ∧ q < p + n then (taken buf (copiesFrom blocks p n)).getD (q - p) 0 else byteAt s.disk fs q := by
  induction blocks generalizing s first n p offset with
  | zero =>
    obtain rfl : n = 0 := by omega
    exact ⟨s.disk, rfl, ready, fun _ _ _ => rfl, fun q _ => by rw [if_neg (by omega)]⟩
  | succ blocks ih =>
    by_cases done : n = 0
    · subst done
      refine ⟨s.disk, ?_, ready, fun _ _ _ => rfl, fun q _ => by rw [if_neg (by omega)]⟩
      rw [List.range'_succ, List.map_cons]
      rfl
    obtain ⟨rfl, rfl⟩ := place.resolve_left done
    generalize amount : min n (512 - p % 512) = k
    have here := named (p / 512) (Nat.le_refl _) (by omega)
    have stored : (padded (buf.take k)).length = k := by
      rw [length_padded, List.length_take]
      omega
    obtain ⟨ready₁, kept₁⟩ := ready.store (by omega : p / 512 < 127 * fs.length) here
      ((s.disk.read (entryAt s.disk fs (p / 512))).patch (p % 512) (padded (buf.take k))) ready.entry
    have entries : ∀ j, entryAt (s.disk.write (entryAt s.disk fs (p / 512)) ((s.disk.read (entryAt s.disk fs (p / 512))).patch
        (p % 512) (padded (buf.take k)))) fs j = entryAt s.disk fs j :=
      entryAt_congr (fun f m => kept₁ f (notData (ready.roles f m) (by decide)) (owned_of_role (ready.roles f m)))
        (kept₁ 0 (notData ready.sound.role_zero (by decide)) (by simp [ready.sound.boot]))
    obtain ⟨d, run, ready₂, kept₂, bytes⟩ := @ih _ (n - k) (p + k) (p / 512 + 1) 0 ready₁ (by omega) (by omega) (by omega)
      (by omega) (by omega) fun j low high => by
        rw [entries]
        exact named j (by omega) (by omega)
    dsimp only at run kept₂ bytes
    rw [List.map_congr_left fun j _ => entries j] at run
    refine ⟨d, ?_, ready₂, fun b other used => (kept₂ b other used).trans (kept₁ b other used), fun q hq => ?_⟩
    · have wrap : toU32 ((p : Int) + (k : Nat)) = p + k := by
        unfold toU32
        omega
      obtain ⟨m, rfl⟩ := Nat.exists_eq_succ_of_ne_zero done
      rw [List.range'_succ, List.map_cons, writeLoop, toCopy_eq _ _ (Nat.mod_lt _ (by decide)), amount,
        strncpy_padded (by omega), ok_bind]
      dsimp only
      rw [wrap, run, show p + k + (m + 1 - k) = p + (m + 1) by omega]
    · have once := byteAt_write ready.sound ready.roles (Chain.nodup ready.chain) (by omega : p / 512 < 127 * fs.length) here
        ((s.disk.read (entryAt s.disk fs (p / 512))).patch (p % 512) (padded (buf.take k))) hq
      rw [bytes q hq, once, copiesFrom, amount]
      unfold taken
      rw [List.flatMap_cons]
      dsimp only
      -- `q` is behind this copy, in it, or outside the transfer.
      by_cases later : p + k ≤ q ∧ q < p + k + (n - k)
      · rw [if_pos later, if_pos (by omega), List.getD_append_right _ _ _ _ (by omega), stored,
          show q - p - k = q - (p + k) by omega]
      rw [if_neg later]
      by_cases new : p ≤ q ∧ q < p + n
      · rw [if_pos (by omega), if_pos new, Bytes.get_patch, stored, if_pos (by omega), List.getD_append _ _ _ _ (by omega),
          show q % 512 - p % 512 = q - p by omega]
      rw [if_neg new]
      split
      · rename_i block
        rw [Bytes.get_patch, stored, if_neg (by omega), byteAt, block, if_neg here]
      · rfl

/-! ### Reading -/

/-- Where the main loop of `sfs_read` leaves the cursor and the buffer. -/
theorem readLoop_copies (blocks first offset : Nat) (room : n ≤ buf.length)
    (place : n = 0 ∨ (offset = p % 512 ∧ first = p / 512)) (inside : n = 0 ∨ p % 512 + n ≤ 512 * blocks)
    (position : p + n < 4294967296) (named : ∀ k, first ≤ k → k < first + blocks → entryAt d fs k ≠ 0) :
    readLoop d ((List.range' first blocks).map (entryAt d fs)) n offset p buf =
      .ok (p + n, landed (byteAt d fs) (copiesFrom blocks p n) buf) := by
  induction blocks generalizing first n p offset buf with
  | zero =>
    obtain rfl : n = 0 := by omega
    rfl
  | succ blocks ih =>
    by_cases done : n = 0
    · subst done
      rw [List.range'_succ, List.map_cons, landed_nothing]
      rfl
    obtain ⟨rfl, rfl⟩ := place.resolve_left done
    generalize amount : min n (512 - p % 512) = k
    have here := named (p / 512) (Nat.le_refl _) (by omega)
    have block : k ≤ ((d.read (entryAt d fs (p / 512))).toList.drop (p % 512)).length := by
      rw [List.length_drop, Bytes.length_toList]
      omega
    have size : (padded ((List.range k).map fun i => byteAt d fs (p + i))).length = k := by
      rw [length_padded, List.length_map, List.length_range]
    have fits : 0 + (padded ((List.range k).map fun i => byteAt d fs (p + i))).length ≤ buf.length := by
      rw [size]
      omega
    have wrap : toU32 ((p : Int) + (k : Nat)) = p + k := by
      unfold toU32
      omega
    have later := @ih (n - k) (p + k) (overlay buf 0 (padded ((List.range k).map fun i => byteAt d fs (p + i)))) (p / 512 + 1) 0
      (by rw [length_overlay fits]; omega) (by omega) (by omega) (by omega) fun j low high => named j (by omega) (by omega)
    obtain ⟨m, rfl⟩ := Nat.exists_eq_succ_of_ne_zero done
    rw [List.range'_succ, List.map_cons, readLoop, toCopy_eq _ _ (Nat.mod_lt _ (by decide)), amount, strncpy_padded block,
      ok_bind, bytes_of_block here (by omega), blit, if_pos fits, ok_bind, wrap, later, copiesFrom, amount,
      show p + k + (m + 1 - k) = p + (m + 1) by omega]
    rfl

end StorageStack.Sfs
