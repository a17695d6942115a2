import OCServer.Lib.LittleEndian
import OCServer.Lib.MachineInt
import OCServer.Lib.Undo

/-!
# The block cipher of `xxtea.cpp` on words

`xxtea_uint_encrypt` and `xxtea_uint_decrypt` work in place on an array of
32-bit words.  Their loops carry the word that was changed last, `z` or `y`,
in a variable.

`uint_encrypt_iff_decrypt` says that each of the two undoes the other, for
arrays of every length.  Behind it is one fact about both loops: the carried
word is always the neighbour in the array, so that a round is a row of
changes of one word by its two neighbours (`mix` and `unmix`).  `DELTA` is odd,
and the sum of the decryption therefore reaches zero after exactly as many
rounds as the encryption made.
-/

namespace OCServer.Xxtea

open LittleEndian

/-- What makes a call undefined. -/
inductive Undefined
  | outOfBounds
  | divisionByZero
  deriving DecidableEq, Repr

def DELTA : UInt32 := 0x9e3779b9

/-- `MX`. -/
def MX (key : List UInt32) (sum e : UInt32) (p : Nat) (z y : UInt32) : UInt32 :=
  (((z >>> 5) ^^^ (y <<< 2)) + ((y >>> 3) ^^^ (z <<< 4))) ^^^
    ((sum ^^^ y) + (key.getD ((UInt32.ofNat p &&& 3) ^^^ e).toNat 0 ^^^ z))

/-- `data[i]`, with `i` below the length. -/
def word (data : List UInt32) (i : Nat) : UInt32 := data.getD i 0

/-- `6 + 52 / ( n + 1 )`. -/
def roundsFor (n : Nat) : Nat := 6 + 52 / (n + 1)

/-! ## Encryption -/

/-- `y = data[p + 1]; z = data[p] += MX;` -/
def encryptWord (key : List UInt32) (sum e : UInt32) (s : UInt32 × List UInt32) (p : Nat) :
    UInt32 × List UInt32 :=
  let y := word s.2 (p + 1)
  let z := word s.2 p + MX key sum e p s.1 y
  (z, s.2.set p z)

/-- The body of the `while` loop, with the sum that it has computed first. -/
def encryptRound (key : List UInt32) (n : Nat) (sum : UInt32) (s : UInt32 × List UInt32) :
    UInt32 × List UInt32 :=
  let e := sum >>> 2 &&& 3
  let s := (List.range n).foldl (encryptWord key sum e) s
  let y := word s.2 0
  let z := word s.2 n + MX key sum e n s.1 y
  (z, s.2.set n z)

/-- `while( 0 < q-- )`. -/
def encryptLoop (key : List UInt32) (n : Nat) : Nat → UInt32 → UInt32 × List UInt32 →
    UInt32 × List UInt32
  | 0, _, s => s
  | q + 1, sum, s => encryptLoop key n q (sum + DELTA) (encryptRound key n (sum + DELTA) s)

/-- `xxtea_uint_encrypt`.  The number of words goes through a `uint32_t`. -/
def xxtea_uint_encrypt (data key : List UInt32) : Except Undefined (List UInt32) :=
  let n := (data.length % 2 ^ 32 + (2 ^ 32 - 1)) % 2 ^ 32
  if data.length ≤ n then .error .outOfBounds
  else if (n + 1) % 2 ^ 32 = 0 then .error .divisionByZero
  else if n < 1 then .ok data
  else .ok (encryptLoop key n (roundsFor n) 0 (word data n, data)).2

/-! ## Decryption -/

/-- `z = data[p - 1]; y = data[p] -= MX;` -/
def decryptWord (key : List UInt32) (sum e : UInt32) (s : UInt32 × List UInt32) (p : Nat) :
    UInt32 × List UInt32 :=
  let z := word s.2 (p - 1)
  let y := word s.2 p - MX key sum e p z s.1
  (y, s.2.set p y)

/-- The body of the `while` loop, up to the last statement. -/
def decryptRound (key : List UInt32) (n : Nat) (sum : UInt32) (s : UInt32 × List UInt32) :
    UInt32 × List UInt32 :=
  let e := sum >>> 2 &&& 3
  let s := (List.range' 1 n).reverse.foldl (decryptWord key sum e) s
  let z := word s.2 n
  let y := word s.2 0 - MX key sum e 0 z s.1
  (y, s.2.set 0 y)

/-- `DELTA` has an inverse. -/
theorem DELTA_mul_inv : DELTA * 0x144cbc89 = 1 := by decide

/-- The inverse counts how often `DELTA` is in the sum. -/
theorem sub_DELTA_lt {sum : UInt32} (h : sum ≠ 0) :
    ((sum - DELTA) * 0x144cbc89).toNat < (sum * 0x144cbc89).toNat := by
  have hne : sum * 0x144cbc89 ≠ 0 := by
    intro h0
    apply h
    have hmul : sum * 0x144cbc89 * DELTA = sum := by
      rw [UInt32.mul_assoc, UInt32.mul_comm 0x144cbc89, DELTA_mul_inv, UInt32.mul_one]
    rw [← hmul, h0, UInt32.zero_mul]
  have hpos : (sum * 0x144cbc89).toNat ≠ 0 := fun h0 => hne (UInt32.toNat_inj.mp h0)
  have hsub : (sum - DELTA) * 0x144cbc89 = sum * 0x144cbc89 - 1 := by
    rw [UInt32.sub_mul, DELTA_mul_inv]
  rw [hsub, UInt32.toNat_sub_of_le _ _ (UInt32.le_iff_toNat_le.mpr (by
    show 1 ≤ _
    omega))]
  show _ - 1 < _
  omega

/-- `while( sum != 0 )`. -/
def decryptLoop (key : List UInt32) (n : Nat) (sum : UInt32) (s : UInt32 × List UInt32) :
    UInt32 × List UInt32 :=
  if sum = 0 then s
  else decryptLoop key n (sum - DELTA) (decryptRound key n sum s)
termination_by (sum * 0x144cbc89).toNat
decreasing_by exact sub_DELTA_lt (by assumption)

/-- `xxtea_uint_decrypt`. -/
def xxtea_uint_decrypt (data key : List UInt32) : Except Undefined (List UInt32) :=
  let n := (data.length % 2 ^ 32 + (2 ^ 32 - 1)) % 2 ^ 32
  if data.length ≤ 0 then .error .outOfBounds
  else if (n + 1) % 2 ^ 32 = 0 then .error .divisionByZero
  else if n < 1 then .ok data
  else .ok (decryptLoop key n (UInt32.ofNat (roundsFor n) * DELTA) (word data 0, data)).2

/-! ## A round as changes of single words -/

/-- The neighbour in front of word `p` of `n + 1`, around the end. -/
def before (n p : Nat) : Nat := if p = 0 then n else p - 1

/-- The neighbour behind it. -/
def after (n p : Nat) : Nat := if p = n then 0 else p + 1

/-- What word `p` is changed by. -/
def mixer (key : List UInt32) (n : Nat) (sum : UInt32) (p : Nat) (d : List UInt32) : UInt32 :=
  MX key sum (sum >>> 2 &&& 3) p (word d (before n p)) (word d (after n p))

/-- Adds it to word `p`. -/
def mix (key : List UInt32) (n : Nat) (sum : UInt32) (p : Nat) : List UInt32 → List UInt32 :=
  Undo.change (· + ·) 0 p (mixer key n sum p)

/-- Takes it away again. -/
def unmix (key : List UInt32) (n : Nat) (sum : UInt32) (p : Nat) : List UInt32 → List UInt32 :=
  Undo.change (· - ·) 0 p (mixer key n sum p)

/-- All words from the first on. -/
def mixAll (key : List UInt32) (n : Nat) (sum : UInt32) : List UInt32 → List UInt32 :=
  Undo.run (mix key n sum) (List.range (n + 1))

/-- All words from the last on. -/
def unmixAll (key : List UInt32) (n : Nat) (sum : UInt32) : List UInt32 → List UInt32 :=
  Undo.run (unmix key n sum) (List.range (n + 1)).reverse

section

variable {key : List UInt32} {n : Nat} {sum : UInt32} {p : Nat} {d : List UInt32}

/-- With two words or more, a word is not its own neighbour. -/
theorem before_ne (hn : 0 < n) (p : Nat) : p ≠ before n p := by
  unfold before
  split_ifs <;> omega

theorem after_ne (hn : 0 < n) (p : Nat) : p ≠ after n p := by
  unfold after
  split_ifs <;> omega

theorem mixer_set (hn : 0 < n) (p : Nat) (d : List UInt32) (v : UInt32) :
    mixer key n sum p (d.set p v) = mixer key n sum p d := by
  unfold mixer word
  rw [List.getD_eq_getElem?_getD, List.getElem?_set_ne (before_ne hn p),
    ← List.getD_eq_getElem?_getD, List.getD_eq_getElem?_getD (l := d.set p v),
    List.getElem?_set_ne (after_ne hn p), ← List.getD_eq_getElem?_getD]

theorem unmix_mix (hn : 0 < n) (p : Nat) :
    Function.LeftInverse (unmix key n sum p) (mix key n sum p) :=
  Undo.change_change UInt32.add_sub_cancel (mixer_set hn p)

theorem mix_unmix (hn : 0 < n) (p : Nat) :
    Function.LeftInverse (mix key n sum p) (unmix key n sum p) :=
  Undo.change_change UInt32.sub_add_cancel (mixer_set hn p)

theorem unmixAll_mixAll (hn : 0 < n) (sum : UInt32) :
    Function.LeftInverse (unmixAll key n sum) (mixAll key n sum) :=
  Undo.run_reverse (unmix_mix hn) _

theorem mixAll_unmixAll (hn : 0 < n) (sum : UInt32) :
    Function.LeftInverse (mixAll key n sum) (unmixAll key n sum) :=
  Undo.reverse_run (mix_unmix hn) _

theorem run_mix_length (l : List Nat) (d : List UInt32) :
    (Undo.run (mix key n sum) l d).length = d.length := by
  induction l generalizing d with
  | nil => rfl
  | cons p l ih => rw [Undo.run_cons, ih, mix, Undo.change_length]

theorem run_unmix_length (l : List Nat) (d : List UInt32) :
    (Undo.run (unmix key n sum) l d).length = d.length := by
  induction l generalizing d with
  | nil => rfl
  | cons p l ih => rw [Undo.run_cons, ih, unmix, Undo.change_length]

theorem word_set_self (hp : p < d.length) (v : UInt32) : word (d.set p v) p = v := by
  rw [word, List.getD_eq_getElem?_getD, List.getElem?_set_self hp, Option.getD_some]

/-- The carried word is the neighbour in front, so that the step is a change of the word. -/
theorem encryptWord_eq (hp : p < n) (hd : p < d.length) :
    encryptWord key sum (sum >>> 2 &&& 3) (word d (before n p), d) p =
      (word (mix key n sum p d) (before n (p + 1)), mix key n sum p d) := by
  have hafter : after n p = p + 1 := if_neg (Nat.ne_of_lt hp)
  have hmix : mix key n sum p d = d.set p (word d p +
      MX key sum (sum >>> 2 &&& 3) p (word d (before n p)) (word d (p + 1))) := by
    rw [← hafter]
    rfl
  have hbefore : before n (p + 1) = p := rfl
  rw [hmix, hbefore, word_set_self hd]
  rfl

/-- The `for` loop of the encryption, up to word `k`. -/
theorem encryptWords_eq {k : Nat} (hk : k ≤ n) (hd : n < d.length) :
    (List.range k).foldl (encryptWord key sum (sum >>> 2 &&& 3)) (word d n, d) =
      (word (Undo.run (mix key n sum) (List.range k) d) (before n k),
        Undo.run (mix key n sum) (List.range k) d) := by
  induction k with
  | zero => rfl
  | succ k ih =>
    have hlen : k < (Undo.run (mix key n sum) (List.range k) d).length := by
      rw [run_mix_length]
      omega
    rw [List.range_succ, List.foldl_append, ih (by omega), List.foldl_cons, List.foldl_nil,
      encryptWord_eq (by omega) hlen, Undo.run_append, Undo.run_cons, Undo.run_nil]

/-- A round of the encryption. -/
theorem encryptRound_eq (hd : n < d.length) :
    encryptRound key n sum (word d n, d) = (word (mixAll key n sum d) n, mixAll key n sum d) := by
  have hlen : n < (Undo.run (mix key n sum) (List.range n) d).length := by
    rwa [run_mix_length]
  have hall : mixAll key n sum d =
      mix key n sum n (Undo.run (mix key n sum) (List.range n) d) := by
    rw [mixAll, List.range_succ, Undo.run_append, Undo.run_cons, Undo.run_nil]
  have hmix : ∀ d' : List UInt32, mix key n sum n d' = d'.set n (word d' n +
      MX key sum (sum >>> 2 &&& 3) n (word d' (before n n)) (word d' 0)) := by
    intro d'
    have hafter : after n n = 0 := if_pos rfl
    rw [← hafter]
    rfl
  rw [encryptRound, encryptWords_eq (Nat.le_refl n) hd, hall, hmix, word_set_self hlen]

/-- The carried word is the neighbour behind. -/
theorem decryptWord_eq (hp : 0 < p) (hd : p < d.length) (hpn : p ≤ n) :
    decryptWord key sum (sum >>> 2 &&& 3) (word d (after n p), d) p =
      (word (unmix key n sum p d) (after n (p - 1)), unmix key n sum p d) := by
  have hbefore : before n p = p - 1 := if_neg (Nat.ne_of_gt hp)
  have hunmix : unmix key n sum p d = d.set p (word d p -
      MX key sum (sum >>> 2 &&& 3) p (word d (p - 1)) (word d (after n p))) := by
    rw [← hbefore]
    rfl
  have hafter : after n (p - 1) = p := by
    unfold after
    split_ifs <;> omega
  rw [hunmix, hafter, word_set_self hd]
  rfl

/-- The words from `n` down to `k + 1`. -/
def down (n k : Nat) : List Nat := (List.range' (k + 1) (n - k)).reverse

theorem down_succ {k : Nat} (hk : k < n) : down n k = down n (k + 1) ++ [k + 1] := by
  have hlen : n - k = n - (k + 1) + 1 := by omega
  rw [down, hlen, List.range'_succ, List.reverse_cons, down]

/-- The `for` loop of the decryption, down to word `n - j + 1`. -/
theorem decryptWords_eq {j : Nat} (hj : j ≤ n) (hd : n < d.length) :
    (down n (n - j)).foldl (decryptWord key sum (sum >>> 2 &&& 3)) (word d 0, d) =
      (word (Undo.run (unmix key n sum) (down n (n - j)) d) (after n (n - j)),
        Undo.run (unmix key n sum) (down n (n - j)) d) := by
  induction j with
  | zero =>
    have hnil : down n (n - 0) = [] := by simp [down]
    have hafter : after n (n - 0) = 0 := if_pos rfl
    rw [hnil, hafter]
    rfl
  | succ j ih =>
    have hstep : n - j = n - (j + 1) + 1 := by omega
    have ih := ih (by omega)
    have hlen : n - (j + 1) + 1 < (Undo.run (unmix key n sum) (down n (n - j)) d).length := by
      rw [run_unmix_length]
      omega
    rw [hstep] at ih hlen
    rw [down_succ (by omega), List.foldl_append, ih, List.foldl_cons, List.foldl_nil,
      decryptWord_eq (Nat.succ_pos _) hlen (by omega), Undo.run_append, Undo.run_cons, Undo.run_nil]
    rfl

/-- A round of the decryption. -/
theorem decryptRound_eq (hn : 0 < n) (hd : n < d.length) :
    decryptRound key n sum (word d 0, d) =
      (word (unmixAll key n sum d) 0, unmixAll key n sum d) := by
  have hwords : (down n (n - n)).foldl (decryptWord key sum (sum >>> 2 &&& 3)) (word d 0, d) = _ :=
    decryptWords_eq (Nat.le_refl n) hd
  have hdown : down n (n - n) = (List.range' 1 n).reverse := by
    rw [Nat.sub_self, down, Nat.zero_add, Nat.sub_zero]
  have hafter : after n (n - n) = 1 := by
    rw [Nat.sub_self, after, if_neg (Nat.ne_of_lt hn)]
  rw [hdown, hafter] at hwords
  have hlen : 0 < (Undo.run (unmix key n sum) (List.range' 1 n).reverse d).length := by
    rw [run_unmix_length]
    omega
  have hall : unmixAll key n sum d =
      unmix key n sum 0 (Undo.run (unmix key n sum) (List.range' 1 n).reverse d) := by
    rw [unmixAll, List.range_eq_range', List.range'_succ, List.reverse_cons, Undo.run_append,
      Undo.run_cons, Undo.run_nil]
  have hunmix : ∀ d' : List UInt32, unmix key n sum 0 d' = d'.set 0 (word d' 0 -
      MX key sum (sum >>> 2 &&& 3) 0 (word d' n) (word d' 1)) := by
    intro d'
    have hafter : after n 0 = 1 := if_neg (Nat.ne_of_lt hn)
    rw [← hafter]
    rfl
  rw [decryptRound, hwords, hall, hunmix, word_set_self hlen]

/-! ## All rounds -/

/-- The sums of `q` rounds behind `sum`. -/
def sums (sum : UInt32) : Nat → List UInt32
  | 0 => []
  | q + 1 => (sum + DELTA) :: sums (sum + DELTA) q

/-- The sum of the last round. -/
def lastSum (sum : UInt32) (q : Nat) : UInt32 := sum + UInt32.ofNat q * DELTA

theorem lastSum_succ (sum : UInt32) (q : Nat) : lastSum sum (q + 1) = lastSum (sum + DELTA) q := by
  have hq : UInt32.ofNat (q + 1) = UInt32.ofNat q + 1 := UInt32.ofNat_add q 1
  rw [lastSum, lastSum, hq, UInt32.add_mul, UInt32.one_mul, UInt32.add_assoc,
    UInt32.add_comm DELTA]

/-- A sum of fewer than `2 ^ 32` rounds is not zero. -/
theorem sum_ne_zero {q : Nat} (hq : 0 < q) (hlt : q < 2 ^ 32) : UInt32.ofNat q * DELTA ≠ 0 := by
  intro h0
  have hmul : UInt32.ofNat q * DELTA * 0x144cbc89 = UInt32.ofNat q := by
    rw [UInt32.mul_assoc, DELTA_mul_inv, UInt32.mul_one]
  rw [h0, UInt32.zero_mul] at hmul
  have hnat := congrArg UInt32.toNat hmul
  rw [UInt32.toNat_ofNat_of_lt' (by simp only [UInt32.size]; omega)] at hnat
  exact absurd hnat.symm (Nat.ne_of_gt hq)

theorem mixAll_length (sum : UInt32) (d : List UInt32) :
    (mixAll key n sum d).length = d.length :=
  run_mix_length _ d

theorem unmixAll_length (sum : UInt32) (d : List UInt32) :
    (unmixAll key n sum d).length = d.length :=
  run_unmix_length _ d

theorem run_mixAll_length (l : List UInt32) (d : List UInt32) :
    (Undo.run (mixAll key n) l d).length = d.length := by
  induction l generalizing d with
  | nil => rfl
  | cons sum l ih => rw [Undo.run_cons, ih, mixAll_length]

theorem run_unmixAll_length (l : List UInt32) (d : List UInt32) :
    (Undo.run (unmixAll key n) l d).length = d.length := by
  induction l generalizing d with
  | nil => rfl
  | cons sum l ih => rw [Undo.run_cons, ih, unmixAll_length]

/-- The loop of the encryption, as a run of rounds. -/
theorem encryptLoop_eq (q : Nat) (sum : UInt32) (hd : n < d.length) :
    encryptLoop key n q sum (word d n, d) =
      (word (Undo.run (mixAll key n) (sums sum q) d) n,
        Undo.run (mixAll key n) (sums sum q) d) := by
  induction q generalizing sum d with
  | zero => rfl
  | succ q ih =>
    rw [encryptLoop, encryptRound_eq hd, ih _ (by rwa [mixAll_length]), sums, Undo.run_cons]

/-- The loop of the decryption, which makes the rounds back and is then at the sum that the
encryption started from. -/
theorem decryptLoop_eq (hn : 0 < n) (q : Nat) (sum : UInt32) (hd : n < d.length)
    (hne : ∀ j, j < q → lastSum sum (j + 1) ≠ 0) :
    decryptLoop key n (lastSum sum q) (word d 0, d) =
      decryptLoop key n sum (word (Undo.run (unmixAll key n) (sums sum q).reverse d) 0,
        Undo.run (unmixAll key n) (sums sum q).reverse d) := by
  induction q generalizing sum with
  | zero =>
    have hlast : lastSum sum 0 = sum := by
      rw [lastSum]
      show sum + 0 * DELTA = sum
      rw [UInt32.zero_mul, UInt32.add_zero]
    rw [hlast]
    rfl
  | succ q ih =>
    have hlen : n < (Undo.run (unmixAll key n) (sums (sum + DELTA) q).reverse d).length := by
      rwa [run_unmixAll_length]
    have hfirst : sum + DELTA ≠ 0 := by
      have h0 := hne 0 (by omega)
      rwa [lastSum_succ, lastSum, show UInt32.ofNat 0 = 0 from rfl, UInt32.zero_mul,
        UInt32.add_zero] at h0
    have ih := ih (sum + DELTA) (fun j hj => lastSum_succ sum (j + 1) ▸ hne (j + 1) (by omega))
    rw [lastSum_succ, ih, decryptLoop, if_neg hfirst, UInt32.add_sub_cancel,
      decryptRound_eq hn hlen, sums, List.reverse_cons, Undo.run_append, Undo.run_cons,
      Undo.run_nil]

/-- The loop of the decryption from the sum of all rounds. -/
theorem decryptLoop_all (hn : 0 < n) {q : Nat} (hq : q < 2 ^ 32) (hd : n < d.length) :
    (decryptLoop key n (UInt32.ofNat q * DELTA) (word d 0, d)).2 =
      Undo.run (unmixAll key n) (sums 0 q).reverse d := by
  have hlast : ∀ j, lastSum 0 j = UInt32.ofNat j * DELTA := fun j => UInt32.zero_add _
  have h : decryptLoop key n (lastSum 0 q) (word d 0, d) = _ :=
    decryptLoop_eq hn q 0 hd fun j hj => by
      rw [hlast]
      exact sum_ne_zero (Nat.succ_pos j) (by omega)
  rw [← hlast, h, decryptLoop, if_pos rfl]

theorem roundsFor_lt (n : Nat) : roundsFor n < 2 ^ 32 := by
  have h : 52 / (n + 1) ≤ 52 := Nat.div_le_self ..
  unfold roundsFor
  omega

end

/-- The index of the last word. -/
def lastIndex (len : Nat) : Nat := len % 2 ^ 32 - 1

/-- The encryption, for lengths at which nothing goes wrong. -/
theorem xxtea_uint_encrypt_eq {data : List UInt32} (key : List UInt32)
    (h : data.length % 2 ^ 32 ≠ 0) :
    xxtea_uint_encrypt data key =
      .ok (if lastIndex data.length = 0 then data
        else Undo.run (mixAll key (lastIndex data.length))
          (sums 0 (roundsFor (lastIndex data.length))) data) := by
  have hn : (data.length % 2 ^ 32 + (2 ^ 32 - 1)) % 2 ^ 32 = lastIndex data.length := by
    unfold lastIndex
    omega
  have hle := Nat.mod_le data.length (2 ^ 32)
  have hlt : lastIndex data.length < data.length := by
    unfold lastIndex
    omega
  have hne : (lastIndex data.length + 1) % 2 ^ 32 ≠ 0 := by
    unfold lastIndex
    omega
  unfold xxtea_uint_encrypt
  simp only [hn]
  rw [if_neg (by omega), if_neg hne, encryptLoop_eq _ _ hlt]
  split_ifs with h1 h2
  · rfl
  · omega
  · omega
  · rfl

/-- The decryption, for the same lengths. -/
theorem xxtea_uint_decrypt_eq {data : List UInt32} (key : List UInt32)
    (h : data.length % 2 ^ 32 ≠ 0) :
    xxtea_uint_decrypt data key =
      .ok (if lastIndex data.length = 0 then data
        else Undo.run (unmixAll key (lastIndex data.length))
          (sums 0 (roundsFor (lastIndex data.length))).reverse data) := by
  have hn : (data.length % 2 ^ 32 + (2 ^ 32 - 1)) % 2 ^ 32 = lastIndex data.length := by
    unfold lastIndex
    omega
  have hle := Nat.mod_le data.length (2 ^ 32)
  have hlt : lastIndex data.length < data.length := by
    unfold lastIndex
    omega
  have hne : (lastIndex data.length + 1) % 2 ^ 32 ≠ 0 := by
    unfold lastIndex
    omega
  unfold xxtea_uint_decrypt
  simp only [hn]
  rw [if_neg (by omega), if_neg hne]
  by_cases h0 : lastIndex data.length = 0
  · rw [if_pos h0, if_pos (by omega)]
  · rw [if_neg h0, if_neg (by omega),
      decryptLoop_all (Nat.pos_of_ne_zero h0) (roundsFor_lt _) hlt]

/-- For the other lengths the encryption is undefined. -/
theorem xxtea_uint_encrypt_error {data : List UInt32} (key : List UInt32)
    (h : data.length % 2 ^ 32 = 0) : ∃ u, xxtea_uint_encrypt data key = .error u := by
  unfold xxtea_uint_encrypt
  simp only [h]
  by_cases hlen : data.length ≤ 2 ^ 32 - 1
  · exact ⟨.outOfBounds, if_pos hlen⟩
  · exact ⟨.divisionByZero, (if_neg hlen).trans (if_pos rfl)⟩

theorem xxtea_uint_decrypt_error {data : List UInt32} (key : List UInt32)
    (h : data.length % 2 ^ 32 = 0) : ∃ u, xxtea_uint_decrypt data key = .error u := by
  unfold xxtea_uint_decrypt
  simp only [h]
  by_cases hlen : data.length ≤ 0
  · exact ⟨.outOfBounds, if_pos hlen⟩
  · exact ⟨.divisionByZero, (if_neg hlen).trans (if_pos rfl)⟩

/-- The encryption keeps the length. -/
theorem xxtea_uint_encrypt_length {data key c : List UInt32}
    (h : xxtea_uint_encrypt data key = .ok c) :
    data.length % 2 ^ 32 ≠ 0 ∧ c.length = data.length := by
  by_cases hlen : data.length % 2 ^ 32 = 0
  · obtain ⟨u, hu⟩ := xxtea_uint_encrypt_error key hlen
    rw [hu] at h
    cases h
  · rw [xxtea_uint_encrypt_eq key hlen] at h
    refine ⟨hlen, ?_⟩
    rw [← Except.ok.inj h]
    split_ifs
    · rfl
    · exact run_mixAll_length _ _

/-- So does the decryption. -/
theorem xxtea_uint_decrypt_length {data key c : List UInt32}
    (h : xxtea_uint_decrypt data key = .ok c) :
    data.length % 2 ^ 32 ≠ 0 ∧ c.length = data.length := by
  by_cases hlen : data.length % 2 ^ 32 = 0
  · obtain ⟨u, hu⟩ := xxtea_uint_decrypt_error key hlen
    rw [hu] at h
    cases h
  · rw [xxtea_uint_decrypt_eq key hlen] at h
    refine ⟨hlen, ?_⟩
    rw [← Except.ok.inj h]
    split_ifs
    · rfl
    · exact run_unmixAll_length _ _

theorem uint_decrypt_of_encrypt {key data c : List UInt32}
    (h : xxtea_uint_encrypt data key = .ok c) : xxtea_uint_decrypt c key = .ok data := by
  obtain ⟨hlen, hc⟩ := xxtea_uint_encrypt_length h
  rw [xxtea_uint_encrypt_eq key hlen] at h
  have heq := Except.ok.inj h
  rw [xxtea_uint_decrypt_eq key (hc ▸ hlen), hc, ← heq]
  split_ifs with h0
  · rfl
  · rw [Undo.run_reverse (unmixAll_mixAll (Nat.pos_of_ne_zero h0)) _ data]

theorem uint_encrypt_of_decrypt {key data c : List UInt32}
    (h : xxtea_uint_decrypt c key = .ok data) : xxtea_uint_encrypt data key = .ok c := by
  obtain ⟨hlen, hd⟩ := xxtea_uint_decrypt_length h
  rw [xxtea_uint_decrypt_eq key hlen] at h
  have heq := Except.ok.inj h
  rw [xxtea_uint_encrypt_eq key (hd ▸ hlen), hd, ← heq]
  split_ifs with h0
  · rfl
  · rw [Undo.reverse_run (mixAll_unmixAll (Nat.pos_of_ne_zero h0)) _ c]

/-- Decryption undoes encryption and encryption undoes decryption, for every array and every
key. -/
theorem uint_encrypt_iff_decrypt (key data c : List UInt32) :
    xxtea_uint_encrypt data key = .ok c ↔ xxtea_uint_decrypt c key = .ok data :=
  ⟨uint_decrypt_of_encrypt, uint_encrypt_of_decrypt⟩

end OCServer.Xxtea
