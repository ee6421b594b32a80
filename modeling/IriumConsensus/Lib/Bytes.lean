import Mathlib.Data.Finset.Max
import Mathlib.Data.UInt

namespace ByteCodec

abbrev Bytes := List UInt8

variable {n : Nat} {bs : Bytes} {α β : Type} {a : α}

/-- A byte array of fixed length; a value of the wrong length cannot be built. -/
@[ext] structure ByteVec (n : Nat) where
  bytes : Bytes
  length_eq : bytes.length = n
  deriving DecidableEq, Repr

def leList : Nat → Nat → Bytes
  | 0, _ => []
  | w + 1, x => UInt8.ofNat x :: leList w (x / 256)

def leNat : Bytes → Nat
  | [] => 0
  | b :: bs => b.toNat + 256 * leNat bs

def beNat (bs : Bytes) : Nat := bs.foldl (fun acc b => acc * 256 + b.toNat) 0

@[simp] theorem leList_length (w x : Nat) : (leList w x).length = w := by
  induction w generalizing x with
  | zero => rfl
  | succ w ih => simp [leList, ih]

theorem leNat_leList (w x : Nat) : leNat (leList w x) = x % 256 ^ w := by
  induction w generalizing x with
  | zero => simp [leList, leNat, Nat.mod_one]
  | succ w ih =>
    have hlow : (UInt8.ofNat x).toNat = x % 256 := by simp
    rw [leList, leNat, ih, hlow, Nat.pow_succ, Nat.mul_comm (256 ^ w) 256, Nat.mod_mul]

theorem leNat_lt (bs : Bytes) : leNat bs < 256 ^ bs.length := by
  induction bs with
  | nil => simp [leNat]
  | cons b bs ih =>
    have hb : b.toNat < 256 := b.toNat_lt
    simp only [leNat, List.length_cons, Nat.pow_succ]
    omega

theorem leList_leNat (bs : Bytes) : leList bs.length (leNat bs) = bs := by
  induction bs with
  | nil => rfl
  | cons b bs ih =>
    have hb : b.toNat < 256 := b.toNat_lt
    have hdiv : (b.toNat + 256 * leNat bs) / 256 = leNat bs := by omega
    have hmod : UInt8.ofNat (b.toNat + 256 * leNat bs) = b := by
      apply UInt8.toNat_inj.mp
      simp only [UInt8.toNat_ofNat']
      omega
    simp only [List.length_cons, leNat, leList, hmod, hdiv, ih]

def leVec (w x : Nat) : ByteVec w := ⟨leList w x, leList_length w x⟩

def beVec (w x : Nat) : ByteVec w := ⟨(leList w x).reverse, by simp⟩

def ByteVec.zero (n : Nat) : ByteVec n := ⟨List.replicate n 0, List.length_replicate⟩

instance (n : Nat) : Inhabited (ByteVec n) := ⟨ByteVec.zero n⟩

def ByteVec.reverse {n : Nat} (v : ByteVec n) : ByteVec n :=
  ⟨v.bytes.reverse, by rw [List.length_reverse, v.length_eq]⟩

@[simp] theorem ByteVec.reverse_reverse (v : ByteVec n) : v.reverse.reverse = v :=
  ByteVec.ext (List.reverse_reverse v.bytes)

theorem ByteVec.reverse_injective : Function.Injective (ByteVec.reverse (n := n)) :=
  fun a b h => by rw [← a.reverse_reverse, h, b.reverse_reverse]

@[simp] theorem ByteVec.length_bytes (v : ByteVec n) : v.bytes.length = n := v.length_eq

/-- Arrays are compared as the big-endian numbers they denote. -/
def ByteVec.toNat {n : Nat} (v : ByteVec n) : Nat := beNat v.bytes

theorem beNat_append (bs : Bytes) (b : UInt8) : beNat (bs ++ [b]) = beNat bs * 256 + b.toNat := by
  simp [beNat]

theorem beNat_reverse (bs : Bytes) : beNat bs.reverse = leNat bs := by
  induction bs with
  | nil => rfl
  | cons b bs ih => rw [List.reverse_cons, beNat_append, ih, leNat]; omega

theorem beVec_toNat (v : ByteVec n) : beVec n v.toNat = v := by
  have h := leList_leNat v.bytes.reverse
  rw [← beNat_reverse, List.reverse_reverse, List.length_reverse, v.length_eq] at h
  exact ByteVec.ext (by simp [beVec, ByteVec.toNat, h])

theorem ByteVec.toNat_injective : Function.Injective (ByteVec.toNat (n := n)) :=
  fun a b h => by rw [← beVec_toNat a, h, beVec_toNat b]

def ByteVec.least {n : Nat} (keys : Finset (ByteVec n)) (h : keys.Nonempty) : {k : ByteVec n // k ∈ keys} :=
  ⟨beVec n ((keys.image ByteVec.toNat).min' (h.image _)), by
    obtain ⟨k, hk, hmin⟩ := Finset.mem_image.mp ((keys.image ByteVec.toNat).min'_mem (h.image _))
    rw [← hmin, beVec_toNat]
    exact hk⟩

def asciiBytes (s : String) : Bytes := s.toList.map fun c => UInt8.ofNat c.toNat

def sliceVec (n start : Nat) (bs : Bytes) : Option (ByteVec n) :=
  if h : ((bs.drop start).take n).length = n then some ⟨(bs.drop start).take n, h⟩ else none

def u64At (start : Nat) (bs : Bytes) : Option UInt64 :=
  (sliceVec 8 start bs).map fun v => UInt64.ofNat (leNat v.bytes)

/-- A reader consumes a front part of its input or fails with a message. -/
abbrev Reader (α : Type) := StateT Bytes (Except String) α

def readVec (n : Nat) (err : String) : Reader (ByteVec n) := fun bs =>
  if h : n ≤ bs.length then .ok (⟨bs.take n, by simp [h]⟩, bs.drop n) else .error err

def readU8 (err : String) : Reader UInt8
  | [] => .error err
  | b :: bs => .ok (b, bs)

def readU16 (err : String) : Reader UInt16 := do
  let v ← readVec 2 err
  return UInt16.ofNat (leNat v.bytes)

def readU32 (err : String) : Reader UInt32 := do
  let v ← readVec 4 err
  return UInt32.ofNat (leNat v.bytes)

def readU64 (err : String) : Reader UInt64 := do
  let v ← readVec 8 err
  return UInt64.ofNat (leNat v.bytes)

def readBytes (len : Nat) (err : String) : Reader Bytes := fun bs =>
  if len ≤ bs.length then .ok (bs.take len, bs.drop len) else .error err

def readExactly {α : Type} (len : Nat) (err : String) (r : Reader α) (raw : Bytes) : Except String α :=
  if raw.length ≠ len then .error err else (r raw).map Prod.fst

def readMany {α : Type} (r : Reader α) : Nat → Reader (List α)
  | 0 => pure []
  | n + 1 => do
    let x ← r
    let xs ← readMany r n
    return x :: xs

def le16 (x : UInt16) : Bytes := leList 2 x.toNat
def le32 (x : UInt32) : Bytes := leList 4 x.toNat
def le64 (x : UInt64) : Bytes := leList 8 x.toNat

theorem reader_bind_eq_ok {r : Reader α} {f : α → Reader β} {p : β × Bytes} :
    (r >>= f) bs = .ok p ↔ ∃ a rest, r bs = .ok (a, rest) ∧ f a rest = .ok p := by
  change (do let q ← r bs; f q.1 q.2 : Except String (β × Bytes)) = _ ↔ _
  cases h : r bs with
  | error e => simp [bind, Except.bind]
  | ok q =>
    obtain ⟨a, rest⟩ := q
    simp [bind, Except.bind]

theorem reader_throw (err : String) (bs : Bytes) : (throw err : Reader α) bs = .error err := rfl

theorem reader_pure (a : α) (bs : Bytes) : (pure a : Reader α) bs = .ok (a, bs) := rfl

/-- `enc a` followed by anything is read back as `a`, leaving what followed. -/
def Reads {α : Type} (r : Reader α) (bs : Bytes) (a : α) : Prop :=
  ∀ rest, r (bs ++ rest) = .ok (a, rest)

theorem reads_pure (a : α) : Reads (pure a) [] a := fun _ => rfl

theorem Reads.bind {r : Reader α} {f : α → Reader β} {cs : Bytes} {b : β} (hr : Reads r bs a) (hf : Reads (f a) cs b) :
    Reads (r >>= f) (bs ++ cs) b := by
  intro rest
  have h : r (bs ++ cs ++ rest) = .ok (a, cs ++ rest) := by
    rw [List.append_assoc]
    exact hr (cs ++ rest)
  change (do let p ← r (bs ++ cs ++ rest); f p.1 p.2 : Except String (β × Bytes)) = _
  rw [h]
  exact hf rest

theorem Reads.map {r : Reader α} (hr : Reads r bs a) (f : α → β) :
    Reads (do let x ← r; return f x) bs (f a) := by
  simpa using hr.bind (f := fun x => pure (f x)) (reads_pure (f a))

theorem readVec_reads (err : String) (v : ByteVec n) : Reads (readVec n err) v.bytes v := by
  intro rest
  have hlen : n ≤ (v.bytes ++ rest).length := by simp
  have htake : (v.bytes ++ rest).take n = v.bytes := List.take_left' v.length_eq
  have hdrop : (v.bytes ++ rest).drop n = rest := List.drop_left' v.length_eq
  simp only [readVec, hlen, ↓reduceDIte, htake, hdrop]

theorem readU8_reads (err : String) (b : UInt8) : Reads (readU8 err) [b] b := fun _ => rfl

theorem readU16_reads (err : String) (x : UInt16) : Reads (readU16 err) (le16 x) x := by
  have h := (readVec_reads err (leVec 2 x.toNat)).map (fun v => UInt16.ofNat (leNat v.bytes))
  have hx : leNat (leList 2 x.toNat) = x.toNat := by
    rw [leNat_leList]; exact Nat.mod_eq_of_lt x.toNat_lt
  simp only [leVec, hx, UInt16.ofNat_toNat] at h
  exact h

theorem readU32_reads (err : String) (x : UInt32) : Reads (readU32 err) (le32 x) x := by
  have h := (readVec_reads err (leVec 4 x.toNat)).map (fun v => UInt32.ofNat (leNat v.bytes))
  have hx : leNat (leList 4 x.toNat) = x.toNat := by
    rw [leNat_leList]; exact Nat.mod_eq_of_lt x.toNat_lt
  simp only [leVec, hx, UInt32.ofNat_toNat] at h
  exact h

theorem readU64_reads (err : String) (x : UInt64) : Reads (readU64 err) (le64 x) x := by
  have h := (readVec_reads err (leVec 8 x.toNat)).map (fun v => UInt64.ofNat (leNat v.bytes))
  have hx : leNat (leList 8 x.toNat) = x.toNat := by
    rw [leNat_leList]; exact Nat.mod_eq_of_lt x.toNat_lt
  simp only [leVec, hx, UInt64.ofNat_toNat] at h
  exact h

theorem readBytes_reads (bs : Bytes) (err : String) : Reads (readBytes bs.length err) bs bs := by
  intro rest
  simp [readBytes]

theorem readMany_reads {r : Reader α} {enc : α → Bytes} {xs : List α}
    (h : ∀ x ∈ xs, Reads r (enc x) x) : Reads (readMany r xs.length) (xs.flatMap enc) xs := by
  induction xs with
  | nil => exact reads_pure []
  | cons x xs ih =>
    have hx := h x (by simp)
    have hxs := ih (fun y hy => h y (by simp [hy]))
    rw [List.flatMap_cons]
    exact hx.bind (hxs.map (fun ys => x :: ys))

theorem Reads.bind_apply {r : Reader α} (h : Reads r bs a) (f : α → Reader β) (rest : Bytes) :
    (r >>= f) (bs ++ rest) = f a rest := by
  change (do let p ← r (bs ++ rest); f p.1 p.2 : Except String (β × Bytes)) = _
  rw [h rest]
  rfl

@[simp] theorem readU8_bind (err : String) (b : UInt8) (f : UInt8 → Reader β) (rest : Bytes) :
    (readU8 err >>= f) (b :: rest) = f b rest := (readU8_reads err b).bind_apply f rest

@[simp] theorem readU16_bind (err : String) (x : UInt16) (f : UInt16 → Reader β) (rest : Bytes) :
    (readU16 err >>= f) (le16 x ++ rest) = f x rest := (readU16_reads err x).bind_apply f rest

@[simp] theorem readU32_bind (err : String) (x : UInt32) (f : UInt32 → Reader β) (rest : Bytes) :
    (readU32 err >>= f) (le32 x ++ rest) = f x rest := (readU32_reads err x).bind_apply f rest

@[simp] theorem readU64_bind (err : String) (x : UInt64) (f : UInt64 → Reader β) (rest : Bytes) :
    (readU64 err >>= f) (le64 x ++ rest) = f x rest := (readU64_reads err x).bind_apply f rest

@[simp] theorem readVec_bind (err : String) (v : ByteVec n) (f : ByteVec n → Reader β)
    (rest : Bytes) : (readVec n err >>= f) (v.bytes ++ rest) = f v rest :=
  (readVec_reads err v).bind_apply f rest

end ByteCodec
