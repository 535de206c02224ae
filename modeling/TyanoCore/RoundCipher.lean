import Mathlib.Algebra.Group.Basic
import Mathlib.Algebra.Group.Even
import Mathlib.Algebra.BigOperators.Group.List.Basic
import Mathlib.Logic.Function.Iterate

/-!
# Ciphers of alternating rounds

A round adds to one half of a block what a function makes of the other half and of a running sum,
moves the sum by a constant and does the same to the other half.  Taken back in the opposite order,
any number of rounds is undone, whatever the two functions are.
-/

namespace RoundCipher

variable {α σ : Type*} [AddCommGroup α] [AddCommGroup σ]

/-- The two halves of a block and the running sum. -/
structure State (α σ : Type*) where
  v0 : α
  v1 : α
  sum : σ

variable (f g : α → σ → α) (delta : σ)

def encryptRound (s : State α σ) : State α σ :=
  let v0 := s.v0 + f s.v1 s.sum
  let sum := s.sum - delta
  ⟨v0, s.v1 + g v0 sum, sum⟩

def decryptRound (s : State α σ) : State α σ :=
  let v1 := s.v1 - g s.v0 s.sum
  let sum := s.sum + delta
  ⟨s.v0 - f v1 sum, v1, sum⟩

def encrypt (rounds : ℕ) (sum : σ) (block : α × α) : α × α :=
  let s := (encryptRound f g delta)^[rounds] ⟨block.1, block.2, sum⟩
  (s.v0, s.v1)

def decrypt (rounds : ℕ) (sum : σ) (block : α × α) : α × α :=
  let s := (decryptRound f g delta)^[rounds] ⟨block.1, block.2, sum⟩
  (s.v0, s.v1)

theorem decryptRound_encryptRound :
    Function.LeftInverse (decryptRound f g delta) (encryptRound f g delta) := by
  intro s
  simp only [decryptRound, encryptRound, add_sub_cancel_right, sub_add_cancel]

theorem encryptRound_sum (rounds : ℕ) (s : State α σ) :
    ((encryptRound f g delta)^[rounds] s).sum = s.sum - rounds • delta := by
  induction rounds generalizing s with
  | zero => rw [Function.iterate_zero, id, zero_nsmul, sub_zero]
  | succ rounds ih =>
    have hsum : (encryptRound f g delta s).sum = s.sum - delta := rfl
    rw [Function.iterate_succ_apply, ih, hsum, succ_nsmul', sub_sub]

/-- Decryption has to start from the sum with which encryption ends. -/
theorem decrypt_encrypt (rounds : ℕ) {sum sum' : σ} (hsum : sum' = sum - rounds • delta)
    (block : α × α) :
    decrypt f g delta rounds sum' (encrypt f g delta rounds sum block) = block := by
  have hinverse := (decryptRound_encryptRound f g delta).iterate rounds ⟨block.1, block.2, sum⟩
  have hend := encryptRound_sum f g delta rounds ⟨block.1, block.2, sum⟩
  simp only [decrypt, encrypt]
  rw [hsum, ← hend, hinverse]

theorem encryptRound_decryptRound :
    Function.LeftInverse (encryptRound f g delta) (decryptRound f g delta) := by
  intro s
  simp only [decryptRound, encryptRound, add_sub_cancel_right, sub_add_cancel]

theorem decryptRound_sum (rounds : ℕ) (s : State α σ) :
    ((decryptRound f g delta)^[rounds] s).sum = s.sum + rounds • delta := by
  induction rounds generalizing s with
  | zero => rw [Function.iterate_zero, id, zero_nsmul, add_zero]
  | succ rounds ih =>
    have hsum : (decryptRound f g delta s).sum = s.sum + delta := rfl
    rw [Function.iterate_succ_apply, ih, hsum, succ_nsmul', add_assoc]

/-- The same the other way round. -/
theorem encrypt_decrypt (rounds : ℕ) {sum sum' : σ} (hsum : sum' = sum - rounds • delta)
    (block : α × α) :
    encrypt f g delta rounds sum (decrypt f g delta rounds sum' block) = block := by
  have hinverse := (encryptRound_decryptRound f g delta).iterate rounds ⟨block.1, block.2, sum'⟩
  have hend := decryptRound_sum f g delta rounds ⟨block.1, block.2, sum'⟩
  have hstart : sum = sum' + rounds • delta := by rw [hsum, sub_add_cancel]
  simp only [decrypt, encrypt]
  rw [hstart, ← hend, hinverse]

/-! ## Buffers -/

section Buffer

variable {β : Type*} [Inhabited β] {f g : β × β → β × β}

/-- A loop through a buffer, two places at a time and in place. -/
def blockLoop (f : β × β → β × β) (length readPos : ℕ) (buffer : List β) : List β :=
  if readPos < length then
    let v := f (buffer[readPos]?.getD default, buffer[readPos + 1]?.getD default)
    blockLoop f length (readPos + 2) ((buffer.set readPos v.1).set (readPos + 1) v.2)
  else buffer
termination_by length - readPos

/-- A function on the blocks of a list. -/
def mapBlocks (f : β × β → β × β) : List β → List β
  | a :: b :: l => (f (a, b)).1 :: (f (a, b)).2 :: mapBlocks f l
  | l => l

omit [Inhabited β] in
theorem mapBlocks_mapBlocks (h : Function.LeftInverse g f) (l : List β) :
    mapBlocks g (mapBlocks f l) = l := by
  induction l using mapBlocks.induct with
  | case1 a b l ih => rw [mapBlocks, mapBlocks, h (a, b), ih]
  | case2 l hl =>
    have hstays (f : β × β → β × β) : mapBlocks f l = l := by
      match l with
      | [] => rfl
      | [a] => rfl
      | a :: b :: l => exact absurd rfl (hl a b l)
    rw [hstays, hstays]

omit [Inhabited β] in
theorem mapBlocks_length (f : β × β → β × β) (l : List β) : (mapBlocks f l).length = l.length := by
  induction l using mapBlocks.induct with
  | case1 a b l ih => rw [mapBlocks, List.length_cons, List.length_cons, ih, List.length_cons,
      List.length_cons]
  | case2 l hl =>
    match l with
    | [] => rfl
    | [a] => rfl
    | a :: b :: l => exact absurd rfl (hl a b l)

/-- The loop takes the blocks that it has not come to through the function. -/
theorem blockLoop_append (f : β × β → β × β) (done : List β) {n : ℕ} {rest : List β}
    (hn : rest.length = 2 * n) :
    blockLoop f (done.length + rest.length) done.length (done ++ rest) =
      done ++ mapBlocks f rest := by
  induction n generalizing done rest with
  | zero =>
    have hnil : rest = [] := List.length_eq_zero_iff.mp hn
    rw [hnil, List.length_nil, Nat.add_zero, blockLoop, if_neg (Nat.lt_irrefl _)]
    rfl
  | succ n ih =>
    match rest, hn with
    | a :: b :: rest, hn =>
      have hlt : done.length < done.length + (a :: b :: rest).length := by
        rw [List.length_cons]
        omega
      have hfirst : (done ++ a :: b :: rest)[done.length]? = some a := by
        rw [List.getElem?_append_right (Nat.le_refl _), Nat.sub_self]
        rfl
      have hsecond : (done ++ a :: b :: rest)[done.length + 1]? = some b := by
        rw [List.getElem?_append_right (Nat.le_add_right _ 1), Nat.add_sub_cancel_left]
        rfl
      have hset (c d : β) : ((done ++ a :: b :: rest).set done.length c).set (done.length + 1) d =
          (done ++ [c, d]) ++ rest := by
        rw [List.set_append_right _ _ (Nat.le_refl _), Nat.sub_self,
          List.set_append_right _ _ (Nat.le_add_right _ 1), Nat.add_sub_cancel_left,
          List.append_assoc]
        rfl
      have hlength : done.length + (a :: b :: rest).length =
          (done ++ [(f (a, b)).1, (f (a, b)).2]).length + rest.length := by
        rw [List.length_append, List.length_cons, List.length_cons, List.length_cons,
          List.length_cons, List.length_nil]
        omega
      have hpos : done.length + 2 = (done ++ [(f (a, b)).1, (f (a, b)).2]).length := by
        rw [List.length_append]
        rfl
      have hrest : rest.length = 2 * n := by
        rw [List.length_cons, List.length_cons] at hn
        omega
      rw [blockLoop, if_pos hlt, hfirst, hsecond, Option.getD_some, Option.getD_some]
      dsimp only
      rw [hset, hlength, hpos, ih _ hrest, List.append_assoc]
      rfl

/-- All blocks of a buffer. -/
theorem blockLoop_eq (f : β × β → β × β) {buffer : List β} (h : Even buffer.length) :
    blockLoop f buffer.length 0 buffer = mapBlocks f buffer := by
  obtain ⟨n, hn⟩ := h
  have hloop := blockLoop_append f [] (hn.trans (Nat.two_mul n).symm)
  rw [List.nil_append, List.nil_append, List.length_nil, Nat.zero_add] at hloop
  exact hloop

end Buffer

end RoundCipher
