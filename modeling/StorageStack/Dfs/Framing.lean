import Mathlib.Algebra.Order.BigOperators.Group.List
import Mathlib.Algebra.Ring.Int.Defs
import StorageStack.Lib.Buffer

/-!
# Messages on a stream

A message crosses a connection in as many transfers as the kernel makes of it. Both loops ask for the whole
size again after a short transfer, so that the last transfer can run past the message.
-/

namespace StorageStack.Dfs
open Lib

/-- The loop of `send_data`, with what `send` returns in each round. Without another return value it waits. -/
def sendLoop (data : List UInt8) (size : Nat) : (returned : List Int) → (bytesSent : Nat) →
    (stream : List UInt8) → Outcome (List UInt8)
  | [], bytesSent, stream => if bytesSent < size then .error .spins else .ok stream
  | numBytes :: returned, bytesSent, stream =>
    if bytesSent < size then
      if numBytes < 0 then sendLoop data size returned bytesSent stream
      else do
        let sent ← slice data bytesSent numBytes.toNat
        sendLoop data size returned (bytesSent + numBytes.toNat) (stream ++ sent)
    else .ok stream

def sendData (data : List UInt8) (size : Nat) (returned : List Int) (stream : List UInt8) : Outcome (List UInt8) :=
  sendLoop data size returned 0 stream

/-- The loop of `receive_data`, with how much the kernel is ready to deliver in each round. It delivers no more
than the stream has. -/
def receiveLoop (size : Nat) : (ready : List Int) → (bytesReceived : Nat) → (data stream : List UInt8) →
    Outcome (List UInt8 × List UInt8)
  | [], bytesReceived, data, stream => if bytesReceived < size then .error .spins else .ok (data, stream)
  | numBytes :: ready, bytesReceived, data, stream =>
    if bytesReceived < size then
      if numBytes < 0 then receiveLoop size ready bytesReceived data stream
      else do
        let received := stream.take numBytes.toNat
        let data ← blit data bytesReceived received
        receiveLoop size ready (bytesReceived + received.length) data (stream.drop numBytes.toNat)
    else .ok (data, stream)

/-- The buffer and what is left of the stream. -/
def receiveData (data : List UInt8) (size : Nat) (ready : List Int) (stream : List UInt8) : Outcome (List UInt8 × List UInt8) :=
  receiveLoop size ready 0 data stream

/-! ### Transfers -/

/-- Every transfer is positive and at most the count that is asked for, and together they are enough. -/
structure Transfers (size : Nat) (counts : List Int) : Prop where
  each : ∀ n ∈ counts, 1 ≤ n ∧ n ≤ size
  enough : size ≤ counts.sum

/-- The transfers end where the message ends. -/
def EndsAt (size : Int) (counts : List Int) : Prop := ∃ k, (counts.take k).sum = size

variable {size : Nat} {counts : List Int} {n left : Int}

theorem endsAt_zero (counts : List Int) : EndsAt 0 counts := ⟨0, rfl⟩

theorem endsAt_cons (some : left ≠ 0) : EndsAt left (n :: counts) ↔ EndsAt (left - n) counts := by
  constructor
  · rintro ⟨k, same⟩
    cases k with
    | zero => exact absurd same.symm some
    | succ k =>
      rw [List.take_succ_cons, List.sum_cons] at same
      exact ⟨k, by omega⟩
  · rintro ⟨k, same⟩
    exact ⟨k + 1, by rw [List.take_succ_cons, List.sum_cons]; omega⟩

theorem sum_nonneg_of_pos (each : ∀ n ∈ counts, 1 ≤ n) : 0 ≤ counts.sum := by
  apply List.sum_nonneg
  intro n member
  have positive := each n member
  omega

theorem not_endsAt (each : ∀ n ∈ counts, 1 ≤ n) (past : left < 0) : ¬ EndsAt left counts := by
  rintro ⟨k, same⟩
  have nonneg := sum_nonneg_of_pos fun n member => each n (List.mem_of_mem_take (i := k) member)
  omega

/-! ### `send_data` -/

theorem sendLoop_ok_iff {data stream result : List UInt8} {sent : Nat} (length : data.length = size) (inside : sent ≤ size)
    (each : ∀ n ∈ counts, 1 ≤ n ∧ n ≤ size) (enough : size ≤ sent + counts.sum) :
    sendLoop data size counts sent stream = .ok result ↔ EndsAt (size - sent) counts ∧ result = stream ++ data.drop sent := by
  induction counts generalizing sent stream with
  | nil =>
    rw [List.sum_nil] at enough
    obtain rfl : sent = size := by omega
    rw [sendLoop, if_neg (Nat.lt_irrefl _), List.drop_of_length_le (by omega), List.append_nil, Int.sub_self,
      Except.ok.injEq, eq_comm]
    exact (and_iff_right (endsAt_zero [])).symm
  | cons n counts ih =>
    obtain ⟨positive, few⟩ := each n (List.mem_cons_self ..)
    rw [List.sum_cons] at enough
    rw [sendLoop]
    by_cases done : sent = size
    · subst done
      rw [if_neg (Nat.lt_irrefl _), List.drop_of_length_le (by omega), List.append_nil, Int.sub_self, Except.ok.injEq, eq_comm]
      exact (and_iff_right (endsAt_zero _)).symm
    · rw [if_pos (by omega), if_neg (by omega), endsAt_cons (by omega)]
      by_cases fits : sent + n.toNat ≤ size
      · rw [slice_ok (by omega), ok_bind, ih (by omega) (fun m member => each m (List.mem_cons_of_mem _ member)) (by omega)]
        have left : (size : Int) - ↑(sent + n.toNat) = size - sent - n := by omega
        have whole : stream ++ (data.drop sent).take n.toNat ++ data.drop (sent + n.toNat) = stream ++ data.drop sent := by
          rw [List.append_assoc, ← List.drop_drop, List.take_append_drop]
        rw [left, whole]
      · have outside : ¬ sent + n.toNat ≤ data.length := by omega
        rw [slice, if_neg outside, error_bind]
        constructor
        · intro run
          cases run
        · rintro ⟨ends, -⟩
          exact absurd ends (not_endsAt (fun m member => (each m (List.mem_cons_of_mem _ member)).1) (by omega))

/-! ### `receive_data` -/

theorem receiveLoop_ok_iff {data stream : List UInt8} {result : List UInt8 × List UInt8} {received : Nat}
    (length : data.length = size)
    (inside : received ≤ size) (available : size ≤ received + stream.length) (each : ∀ n ∈ counts, 1 ≤ n ∧ n ≤ size)
    (enough : size ≤ received + counts.sum) :
    receiveLoop size counts received data stream = .ok result ↔
      (EndsAt (size - received) counts ∨ received + stream.length = size) ∧
        result = (data.take received ++ stream.take (size - received), stream.drop (size - received)) := by
  induction counts generalizing received data stream with
  | nil =>
    rw [List.sum_nil] at enough
    obtain rfl : received = size := by omega
    rw [receiveLoop, if_neg (Nat.lt_irrefl _), List.take_of_length_le (by omega), Nat.sub_self, List.take_zero, List.append_nil,
      List.drop_zero, Int.sub_self, Except.ok.injEq, eq_comm]
    exact (and_iff_right (Or.inl (endsAt_zero []))).symm
  | cons n counts ih =>
    obtain ⟨positive, few⟩ := each n (List.mem_cons_self ..)
    have nonneg := sum_nonneg_of_pos fun m member => (each m (List.mem_cons_of_mem _ member)).1
    rw [List.sum_cons] at enough
    rw [receiveLoop]
    by_cases done : received = size
    · subst done
      rw [if_neg (Nat.lt_irrefl _), List.take_of_length_le (by omega), Nat.sub_self, List.take_zero, List.append_nil,
        List.drop_zero, Int.sub_self, Except.ok.injEq, eq_comm]
      exact (and_iff_right (Or.inl (endsAt_zero _))).symm
    · have got : (stream.take n.toNat).length = min n.toNat stream.length := List.length_take
      rw [if_pos (by omega), if_neg (by omega), endsAt_cons (by omega)]
      dsimp only
      by_cases fits : received + (stream.take n.toNat).length ≤ size
      · have stored : (overlay data received (stream.take n.toNat)).length = size := (length_overlay (by omega)).trans length
        rw [blit, if_pos (by omega), ok_bind, ih stored fits (by rw [List.length_drop]; omega)
          (fun m member => each m (List.mem_cons_of_mem _ member)) (by omega), List.length_drop]
        have front : (overlay data received (stream.take n.toNat)).take (received + (stream.take n.toNat).length) =
            data.take received ++ stream.take n.toNat := by
          have size' : (data.take received ++ stream.take n.toNat).length = received + (stream.take n.toNat).length := by
            rw [List.length_append, List.length_take]
            omega
          rw [overlay, List.take_append_of_le_length (by omega), List.take_of_length_le (by omega)]
        by_cases short : stream.length < n.toNat
        · have last : received + stream.length = size := by omega
          rw [got, Nat.min_eq_right (by omega)] at front ⊢
          have rest : stream.length - n.toNat = 0 := by omega
          rw [front, last, rest, Nat.sub_self, List.take_zero, List.append_nil, List.drop_zero, Int.sub_self,
            List.take_of_length_le (show stream.length ≤ n.toNat by omega),
              List.drop_of_length_le (show stream.length ≤ n.toNat by omega),
            List.take_of_length_le (show stream.length ≤ size - received by omega),
            List.drop_of_length_le (show stream.length ≤ size - received by omega)]
          exact and_congr_left fun _ => iff_of_true (Or.inl (endsAt_zero _)) (Or.inr rfl)
        · rw [got, Nat.min_eq_left (by omega)] at front ⊢
          have left : (size : Int) - ↑(received + n.toNat) = size - received - n := by omega
          have rest : received + n.toNat + (stream.length - n.toNat) = received + stream.length := by omega
          have split : size - received = n.toNat + (size - (received + n.toNat)) := by omega
          rw [left, rest, front, List.append_assoc, ← List.take_add, List.drop_drop, ← split]
      · rw [blit, if_neg (by omega), error_bind]
        constructor
        · intro run
          cases run
        · rintro ⟨ends | last, -⟩
          · exact absurd ends (not_endsAt (fun m member => (each m (List.mem_cons_of_mem _ member)).1) (by omega))
          · omega

/-- A message is sent whole and nothing else is read if and only if the transfers end where it ends. It is
received whole, and what follows stays in the stream, under the same condition or when nothing follows. -/
theorem framing_iff {data buffer before stream : List UInt8} {returned ready : List Int} (message : data.length = size)
    (room : buffer.length = size) (available : size ≤ stream.length) (sends : Transfers size returned)
    (receives : Transfers size ready) :
    (sendData data size returned before = .ok (before ++ data) ↔ EndsAt size returned) ∧
      (receiveData buffer size ready stream = .ok (stream.take size, stream.drop size) ↔
        EndsAt size ready ∨ stream.length = size) := by
  have send := @sendLoop_ok_iff size returned data before (before ++ data) 0 message (Nat.zero_le _) sends.each
    (by simpa using sends.enough)
  have receive := @receiveLoop_ok_iff size ready buffer stream (stream.take size, stream.drop size) 0 room (Nat.zero_le _)
    (by omega) receives.each (by simpa using receives.enough)
  simp only [Int.natCast_zero, Int.sub_zero, List.drop_zero, List.take_zero, List.nil_append, Nat.sub_zero, Nat.zero_add,
    and_true] at send receive
  exact ⟨send, receive⟩

theorem two_halves_framed : (sendData [7, 8] 2 [1, 1] [] = .ok [7, 8] ↔ EndsAt 2 [1, 1]) ∧
    (receiveData [0, 0] 2 [1, 1] [7, 8, 9] = .ok ([7, 8], [9]) ↔ EndsAt 2 [1, 1] ∨ [7, 8, 9].length = 2) :=
  @framing_iff 2 [7, 8] [0, 0] [] [7, 8, 9] [1, 1] [1, 1] rfl rfl (by decide) ⟨by decide, by decide⟩ ⟨by decide, by decide⟩

/-- A second transfer of the whole size reads and stores behind the message. -/
theorem second_transfer_overruns : Transfers 2 [1, 2] ∧ sendData [7, 8] 2 [1, 2] [] = .error .undefined ∧
    receiveData [0, 0] 2 [1, 2] [7, 8, 9] = .error .undefined :=
  ⟨⟨by decide, by decide⟩, rfl, rfl⟩

end StorageStack.Dfs
