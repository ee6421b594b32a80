import IriumConsensus.Lib.Bytes

namespace ByteCodec

variable {α β : Type} {P : α → Prop} {Q : β → Prop}

variable {p : Prop} {n len : Nat} {r : Reader α} {f : α → Reader β} {a a' : α} {bs bs' : Bytes} {enc : α → Bytes}

def Yields (r : Reader α) (P : α → Prop) : Prop := ∀ bs a rest, r bs = .ok (a, rest) → P a

theorem Yields.bind (hr : Yields r P) (hf : ∀ a, P a → Yields (f a) Q) :
    Yields (r >>= f) Q := by
  intro bs b rest h
  obtain ⟨a, mid, ha, hb⟩ := reader_bind_eq_ok.mp h
  exact hf a (hr bs a mid ha) mid b rest hb

theorem Yields.mono {P' : α → Prop} (hr : Yields r P) (h : ∀ a, P a → P' a) : Yields r P' :=
  fun bs a rest ha => h a (hr bs a rest ha)

theorem yields_true (r : Reader α) : Yields r fun _ => True := fun _ _ _ _ => trivial

theorem yields_bind (h : ∀ a, Yields (f a) Q) : Yields (r >>= f) Q :=
  (yields_true r).bind fun a _ => h a

theorem yields_pure (h : P a) : Yields (pure a) P := by
  intro bs b rest hb
  rw [reader_pure, Except.ok.injEq, Prod.mk.injEq] at hb
  exact hb.1 ▸ h

theorem yields_throw (err : String) : Yields (throw err : Reader α) P := by
  intro bs a rest h
  rw [reader_throw] at h
  cases h

theorem readBytes_yields (n : Nat) (err : String) : Yields (readBytes n err) fun bs => bs.length = n := by
  intro bs a rest h
  unfold readBytes at h
  split_ifs at h with hle
  rw [Except.ok.injEq, Prod.mk.injEq] at h
  rw [← h.1, List.length_take, Nat.min_eq_left hle]

def readLen (w : Nat) (err : String) : Reader Nat := do
  let v ← readVec w err
  return leNat v.bytes

theorem readLen_reads {w : Nat} (h : n < 256 ^ w) (err : String) : Reads (readLen w err) (leList w n) n := by
  have hr := (readVec_reads err (leVec w n)).map fun v => leNat v.bytes
  simp only [leVec, leNat_leList, Nat.mod_eq_of_lt h] at hr
  exact hr

theorem readLen_yields (w : Nat) (err : String) : Yields (readLen w err) fun n => n < 256 ^ w := by
  refine yields_bind fun v => yields_pure ?_
  have h := leNat_lt v.bytes
  rwa [v.length_eq] at h

theorem Yields.readMany (hr : Yields r P) (n : Nat) :
    Yields (readMany r n) fun xs => xs.length = n ∧ ∀ x ∈ xs, P x := by
  induction n with
  | zero => exact yields_pure ⟨rfl, fun x hx => absurd hx List.not_mem_nil⟩
  | succ n ih =>
    refine hr.bind fun x hx => ih.bind fun xs hxs => yields_pure ⟨?_, ?_⟩
    · rw [List.length_cons, hxs.1]
    · exact List.forall_mem_cons.mpr ⟨hx, hxs.2⟩

def rejectIf (p : Prop) [Decidable p] (err : String) : Reader Unit := if p then throw err else pure ()

theorem rejectIf_reads [Decidable p] (h : ¬p) (err : String) : Reads (rejectIf p err) [] () := by
  rw [rejectIf, if_neg h]
  exact reads_pure ()

theorem rejectIf_bind [Decidable p] (h : ¬p) (err : String) (f : Unit → Reader β) (bs : Bytes) :
    (rejectIf p err >>= f) bs = f () bs := (rejectIf_reads h err).bind_apply f bs

theorem rejectIf_yields (p : Prop) [Decidable p] (err : String) : Yields (rejectIf p err) fun _ => ¬p := by
  unfold rejectIf
  split_ifs with h
  · exact yields_throw err
  · exact yields_pure h

theorem Reads.bind_nil {b : β} (hr : Reads r bs a) (hf : Reads (f a) [] b) : Reads (r >>= f) bs b := by
  have h := hr.bind hf
  rwa [List.append_nil] at h

theorem reader_bind_of_ok {rest : Bytes} (h : r bs = .ok (a, rest)) (f : α → Reader β) :
    (r >>= f) bs = f a rest := by
  change (do let p ← r bs; f p.1 p.2 : Except String (β × Bytes)) = _
  rw [h]
  rfl

def requireRest (n : Nat) (err : String) : Reader Unit := fun bs =>
  if bs.length ≠ n then .error err else .ok ((), bs)

theorem requireRest_bind (h : bs.length = n) (err : String) (f : Unit → Reader β) :
    (requireRest n err >>= f) bs = f () bs := by
  refine reader_bind_of_ok ?_ f
  rw [requireRest, if_neg (not_not.mpr h)]

def readSlice (n : Nat) (err : String) (decode : Bytes → Except String α) : Reader α := do
  let raw ← readBytes n err
  match decode raw with
  | .ok a => return a
  | .error e => throw e

theorem readSlice_reads {decode : Bytes → Except String α} (hn : bs.length = n) (h : decode bs = .ok a) (err : String) :
    Reads (readSlice n err decode) bs a := by
  intro rest
  rw [readSlice, ← hn, (readBytes_reads bs err).bind_apply, h]
  rfl

theorem readSlice_yields {decode : Bytes → Except String α} (h : ∀ raw a, decode raw = .ok a → P a) (n : Nat)
    (err : String) : Yields (readSlice n err decode) P := by
  refine yields_bind fun raw => ?_
  split
  next a ha => exact yields_pure (h raw a ha)
  next e _ => exact yields_throw e

theorem Reads.decode (h : Reads r bs a) : (r bs).map Prod.fst = .ok a := by
  have hr := h []
  rw [List.append_nil] at hr
  rw [hr]
  rfl

theorem decode_eq_ok (h : (r bs).map Prod.fst = .ok a) :
    ∃ rest, r bs = .ok (a, rest) := by
  cases hb : r bs with
  | error e =>
    rw [hb] at h
    cases h
  | ok p =>
    rw [hb] at h
    cases h
    exact ⟨p.2, rfl⟩

theorem Yields.decode (hr : Yields r P) (h : (r bs).map Prod.fst = .ok a) :
    P a := by
  obtain ⟨rest, hb⟩ := decode_eq_ok h
  exact hr bs a rest hb

theorem eq_of_decode {decode : Bytes → Except String α} (h : decode bs = .ok a) (h' : decode bs' = .ok a')
    (heq : bs = bs') : a = a' := by
  rw [heq, h'] at h
  exact (Except.ok.inj h).symm

theorem Reads.eq_of_eq (h : Reads r bs a) (h' : Reads r bs' a') (heq : bs = bs') : a = a' := by
  have hd := h.decode
  rw [heq, h'.decode] at hd
  exact (Except.ok.inj hd).symm

def readAll (r : Reader α) (err : Bytes → String) (raw : Bytes) : Except String α :=
  match r raw with
  | .ok (a, []) => .ok a
  | .ok (_, rest) => .error (err rest)
  | .error e => .error e

theorem Reads.readAll (h : Reads r bs a) (err : Bytes → String) :
    readAll r err bs = .ok a := by
  have hr := h []
  rw [List.append_nil] at hr
  rw [ByteCodec.readAll, hr]

theorem Reads.readExactly (h : Reads r bs a) (hlen : bs.length = len) (err : String) :
    readExactly len err r bs = .ok a := by
  rw [ByteCodec.readExactly, if_neg (not_not.mpr hlen)]
  exact h.decode

theorem Yields.readExactly (hr : Yields r P) {err : String} {raw : Bytes} (h : readExactly len err r raw = .ok a) :
    P a := by
  unfold ByteCodec.readExactly at h
  split_ifs at h
  exact hr.decode h

/-- Every record is written in `n` bytes, which are decoded to the record. -/
def Fixed (decode : Bytes → Except String α) (enc : α → Bytes) (n : Nat) : Prop :=
  ∀ a, (enc a).length = n ∧ decode (enc a) = .ok a

theorem fixed_readExactly (err : Bytes → String) (hlen : ∀ a, (enc a).length = n) (hr : ∀ a, Reads r (enc a) a) :
    Fixed (fun raw => ByteCodec.readExactly n (err raw) r raw) enc n :=
  fun a => ⟨hlen a, (hr a).readExactly (hlen a) _⟩

theorem Fixed.slice {decode : Bytes → Except String α} (h : Fixed decode enc n) (err : String) (a : α) :
    Reads (readSlice n err decode) (enc a) a := readSlice_reads (h a).1 (h a).2 err

theorem Fixed.flatMap_length {decode : Bytes → Except String α} (h : Fixed decode enc n) (xs : List α) :
    (xs.flatMap enc).length = xs.length * n := by
  rw [List.length_flatMap, List.map_congr_left fun x _ => (h x).1, List.map_const', List.sum_replicate_nat]

/-- What the reader hands back depends on the bytes it has taken, and on none behind them. -/
def Local (r : Reader α) : Prop := ∀ bs a rest, r bs = .ok (a, rest) → ∃ pre, bs = pre ++ rest ∧ Reads r pre a

theorem local_pure (a : α) : Local (pure a) := by
  intro bs b rest h
  rw [reader_pure, Except.ok.injEq, Prod.mk.injEq] at h
  obtain ⟨rfl, rfl⟩ := h
  exact ⟨[], rfl, reads_pure a⟩

theorem local_throw (err : String) : Local (throw err : Reader α) := by
  intro bs a rest h
  rw [reader_throw] at h
  cases h

theorem Local.bind (hr : Local r) (hf : ∀ a, Local (f a)) : Local (r >>= f) := by
  intro bs b rest h
  obtain ⟨a, mid, ha, hb⟩ := reader_bind_eq_ok.mp h
  obtain ⟨pre, rfl, hpre⟩ := hr bs a mid ha
  obtain ⟨pre', rfl, hpre'⟩ := hf a mid b rest hb
  exact ⟨pre ++ pre', (List.append_assoc _ _ _).symm, hpre.bind hpre'⟩

theorem Local.ite {r' : Reader α} [Decidable p] (hr : Local r) (hr' : Local r') : Local (if p then r else r') := by
  split
  · exact hr
  · exact hr'

theorem Local.readMany (hr : Local r) (n : Nat) : Local (readMany r n) := by
  induction n with
  | zero => exact local_pure []
  | succ n ih => exact hr.bind fun x => ih.bind fun xs => local_pure (x :: xs)

section

variable {bs rest : Bytes} {err : String} {r : Reader α} {enc : α → Bytes} {xs : List α}

theorem readBytes_ok {xs : Bytes} :
    readBytes n err bs = .ok (xs, rest) ↔ xs.length = n ∧ bs = xs ++ rest := by
  unfold readBytes
  constructor
  · intro h
    split_ifs at h with hle
    obtain ⟨rfl, rfl⟩ := Prod.mk.inj (Except.ok.inj h)
    exact ⟨List.length_take_of_le hle, (List.take_append_drop n bs).symm⟩
  · rintro ⟨rfl, rfl⟩
    simp

theorem readVec_ok {v : ByteVec n} : readVec n err bs = .ok (v, rest) ↔ bs = v.bytes ++ rest := by
  constructor
  · intro h
    unfold readVec at h
    split_ifs at h with hle
    obtain ⟨rfl, rfl⟩ := Prod.mk.inj (Except.ok.inj h)
    exact (List.take_append_drop n bs).symm
  · rintro rfl
    exact readVec_reads err v rest

theorem readU8_ok {b : UInt8} : readU8 err bs = .ok (b, rest) ↔ bs = b :: rest := by
  cases bs with
  | nil => simp [readU8]
  | cons c cs => simp [readU8]

theorem readBytes_local (n : Nat) (err : String) : Local (readBytes n err) := by
  intro bs xs rest h
  obtain ⟨rfl, rfl⟩ := readBytes_ok.mp h
  exact ⟨xs, rfl, readBytes_reads xs err⟩

theorem readVec_local (n : Nat) (err : String) : Local (readVec n err) := by
  intro bs v rest h
  exact ⟨v.bytes, readVec_ok.mp h, readVec_reads err v⟩

theorem readU8_local (err : String) : Local (readU8 err) := by
  intro bs b rest h
  exact ⟨[b], readU8_ok.mp h, readU8_reads err b⟩

theorem leList_eq_bytes {x : Nat} (v : ByteVec n) (h : x = leNat v.bytes) : leList n x = v.bytes := by
  have hv := leList_leNat v.bytes
  rwa [v.length_bytes, ← h] at hv

theorem leNat_bytes_lt (v : ByteVec n) : leNat v.bytes < 256 ^ n := by
  have h := leNat_lt v.bytes
  rwa [v.length_bytes] at h

theorem readU16_ok {x : UInt16} : readU16 err bs = .ok (x, rest) ↔ bs = le16 x ++ rest := by
  constructor
  · intro h
    simp only [readU16, reader_bind_eq_ok, readVec_ok, reader_pure, Except.ok.injEq, Prod.mk.injEq] at h
    obtain ⟨v, _, rfl, rfl, rfl⟩ := h
    rw [le16, leList_eq_bytes v (UInt16.toNat_ofNat_of_lt' (leNat_bytes_lt v))]
  · rintro rfl
    exact readU16_reads err x rest

theorem readU32_ok {x : UInt32} : readU32 err bs = .ok (x, rest) ↔ bs = le32 x ++ rest := by
  constructor
  · intro h
    simp only [readU32, reader_bind_eq_ok, readVec_ok, reader_pure, Except.ok.injEq, Prod.mk.injEq] at h
    obtain ⟨v, _, rfl, rfl, rfl⟩ := h
    rw [le32, leList_eq_bytes v (UInt32.toNat_ofNat_of_lt' (leNat_bytes_lt v))]
  · rintro rfl
    exact readU32_reads err x rest

theorem readU64_ok {x : UInt64} : readU64 err bs = .ok (x, rest) ↔ bs = le64 x ++ rest := by
  constructor
  · intro h
    simp only [readU64, reader_bind_eq_ok, readVec_ok, reader_pure, Except.ok.injEq, Prod.mk.injEq] at h
    obtain ⟨v, _, rfl, rfl, rfl⟩ := h
    rw [le64, leList_eq_bytes v (UInt64.toNat_ofNat_of_lt' (leNat_bytes_lt v))]
  · rintro rfl
    exact readU64_reads err x rest

/-- The reader takes nothing but the encoding of what it hands back. -/
def Exact (r : Reader α) (enc : α → Bytes) : Prop := ∀ bs a rest, r bs = .ok (a, rest) → bs = enc a ++ rest

theorem Exact.readMany (hr : Exact r enc) (h : readMany r n bs = .ok (xs, rest)) :
    xs.length = n ∧ bs = xs.flatMap enc ++ rest := by
  induction n generalizing bs xs rest with
  | zero =>
    rw [ByteCodec.readMany, reader_pure, Except.ok.injEq, Prod.mk.injEq] at h
    obtain ⟨rfl, rfl⟩ := h
    exact ⟨rfl, rfl⟩
  | succ n ih =>
    simp only [ByteCodec.readMany, reader_bind_eq_ok, reader_pure, Except.ok.injEq, Prod.mk.injEq] at h
    obtain ⟨x, mid, hx, ys, rest', hys, rfl, rfl⟩ := h
    obtain ⟨hlen, rfl⟩ := ih hys
    exact ⟨congrArg Nat.succ hlen, by rw [hr _ _ _ hx, List.flatMap_cons, List.append_assoc]⟩

/-- Where the first reader succeeds with a value in `P` the second one does, with the image of the value and the same
rest. -/
def Follows (r : Reader α) (s : Reader β) (P : α → Prop) (f : α → β) : Prop :=
  ∀ bs a rest, r bs = .ok (a, rest) → P a → s bs = .ok (f a, rest)

theorem Follows.readMany {s : Reader β} {f : α → β} (h : Follows r s P f) (n : Nat) :
    Follows (readMany r n) (readMany s n) (fun xs => ∀ x ∈ xs, P x) (List.map f) := by
  induction n with
  | zero =>
    intro bs xs rest hr _
    cases hr
    rfl
  | succ n ih =>
    intro bs xs rest hr hP
    obtain ⟨a, mid, ha, hr⟩ := reader_bind_eq_ok.mp hr
    obtain ⟨as, mid', has, hr⟩ := reader_bind_eq_ok.mp hr
    cases hr
    obtain ⟨hPa, hPas⟩ := List.forall_mem_cons.mp hP
    rw [ByteCodec.readMany, reader_bind_of_ok (h _ _ _ ha hPa), reader_bind_of_ok (ih _ _ _ has hPas)]
    rfl

/-- The reader takes no fewer bytes than the size of what it hands back. -/
def Takes (r : Reader α) (size : α → Nat) : Prop :=
  ∀ bs a rest, r bs = .ok (a, rest) → size a + rest.length ≤ bs.length

theorem Takes.readMany {size : α → Nat} (hr : Takes r size) (n : Nat) :
    Takes (readMany r n) fun xs => (xs.map size).sum := by
  induction n with
  | zero =>
    intro bs xs rest h
    cases h
    simp
  | succ n ih =>
    intro bs xs rest h
    obtain ⟨x, mid, hx, h⟩ := reader_bind_eq_ok.mp h
    obtain ⟨ys, mid', hys, h⟩ := reader_bind_eq_ok.mp h
    cases h
    have hfirst := hr _ _ _ hx
    have hrest := ih _ _ _ hys
    simp only [List.map_cons, List.sum_cons] at hrest ⊢
    omega

theorem readMany_ok (hr : ∀ bs a rest, r bs = .ok (a, rest) ↔ bs = enc a ++ rest) :
    readMany r n bs = .ok (xs, rest) ↔ xs.length = n ∧ bs = xs.flatMap enc ++ rest := by
  constructor
  · exact Exact.readMany fun bs a rest => (hr bs a rest).mp
  · rintro ⟨rfl, rfl⟩
    exact readMany_reads (fun x _ rest => (hr _ x rest).mpr rfl) rest

end

end ByteCodec
