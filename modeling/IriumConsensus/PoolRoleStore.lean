import Mathlib.Data.List.MinMax
import Mathlib.Data.Prod.Lex
import IriumConsensus.Poawx.Payout
import IriumConsensus.RealHash

namespace IriumConsensus

open ByteCodec

abbrev RoleKey := Nat × UInt8 × Pkh

structure ValidatedPrecommit where
  networkId : UInt8
  targetHeight : Nat
  roleId : UInt8
  solverPkh : Pkh
  commitmentHash : Hash32
  deriving DecidableEq

def ValidatedPrecommit.key (p : ValidatedPrecommit) : RoleKey := (p.targetHeight, p.roleId, p.solverPkh)

def ValidatedPrecommit.leaf (C : Crypto) (p : ValidatedPrecommit) : Hash32 :=
  C.sha256 (asciiBytes "IRIUM_POAWX_ROLE_PRECOMMIT_V1" ++ [p.networkId] ++ leList 8 p.targetHeight ++ [p.roleId] ++
    p.solverPkh.bytes ++ p.commitmentHash.bytes)

structure ValidatedReveal where
  networkId : UInt8
  targetHeight : Nat
  claim : PoawxRoleClaim
  deriving DecidableEq

def ValidatedReveal.key (r : ValidatedReveal) : RoleKey := (r.targetHeight, r.claim.roleId, r.claim.solverPkh)

/-- Both maps by their values, which hold their own keys. -/
structure RoleProtocolStore where
  precommits : List ValidatedPrecommit := []
  reveals : List ValidatedReveal := []

inductive RoleStoreOp where
  | addPrecommit (p : ValidatedPrecommit)
  | addReveal (r : ValidatedReveal)

namespace RoleProtocolStore

def precommit (s : RoleProtocolStore) (k : RoleKey) : Option ValidatedPrecommit := s.precommits.find? (·.key = k)

def reveal (s : RoleProtocolStore) (k : RoleKey) : Option ValidatedReveal := s.reveals.find? (·.key = k)

def addPrecommit (s : RoleProtocolStore) (p : ValidatedPrecommit) : Except String RoleProtocolStore :=
  match s.precommit p.key with
  | some existing =>
    if existing.commitmentHash ≠ p.commitmentHash then .error "role precommit: duplicate with different commitment"
    else .ok s
  | none => .ok { s with precommits := s.precommits ++ [p] }

def addReveal (s : RoleProtocolStore) (r : ValidatedReveal) : Except String RoleProtocolStore :=
  if (s.precommit r.key).any (fun pc => some pc.commitmentHash = r.claim.commitmentHash) then
    match s.reveal r.key with
    | some existing =>
      if existing.claim ≠ r.claim then .error "role reveal: duplicate with different claim" else .ok s
    | none => .ok { s with reveals := s.reveals ++ [r] }
  else .error "role reveal: no matching precommit"

def canonicalPrecommit (s : RoleProtocolStore) (targetHeight : Nat) (roleId : UInt8) : Option ValidatedPrecommit :=
  (s.precommits.filter fun p => p.targetHeight = targetHeight ∧ p.roleId = roleId).argmin
    fun p => toLex (p.solverPkh.toNat, p.commitmentHash.toNat)

def precommitRootFor (C : Crypto) (s : RoleProtocolStore) (targetHeight : Nat) : Option Hash32 := do
  let leaves ← roleIds.toList.mapM fun role => (s.canonicalPrecommit targetHeight role).map (·.leaf C)
  return rolePrecommitRoot C leaves

def selectReveal (s : RoleProtocolStore) (targetHeight : Nat) (roleId : UInt8) : Option ValidatedReveal := do
  let pc ← s.canonicalPrecommit targetHeight roleId
  let rv ← s.reveal (targetHeight, roleId, pc.solverPkh)
  if rv.claim.commitmentHash = some pc.commitmentHash then some rv else none

def selectReveals (s : RoleProtocolStore) (targetHeight : Nat) : Option (List ValidatedReveal) :=
  roleIds.toList.mapM (s.selectReveal targetHeight)

def apply (s : RoleProtocolStore) : RoleStoreOp → RoleProtocolStore
  | .addPrecommit p => (s.addPrecommit p).toOption.getD s
  | .addReveal r => (s.addReveal r).toOption.getD s

def run (s : RoleProtocolStore) (ops : List RoleStoreOp) : RoleProtocolStore := ops.foldl apply s

/-- The root of the precommits that reveals were made for. -/
def rootOf (C : Crypto) (s : RoleProtocolStore) (reveals : List ValidatedReveal) : Option Hash32 := do
  let leaves ← reveals.mapM fun r => (s.precommit r.key).map (·.leaf C)
  return rolePrecommitRoot C leaves

/-- One precommit for each key, and each reveal opens the precommit of its key. -/
structure Matched (s : RoleProtocolStore) : Prop where
  nodup : (s.precommits.map (·.key)).Nodup
  opens : ∀ r ∈ s.reveals, ∃ pc ∈ s.precommits, pc.key = r.key ∧ r.claim.commitmentHash = some pc.commitmentHash

variable {s : RoleProtocolStore} {ops : List RoleStoreOp} {op : RoleStoreOp} {p q pc : ValidatedPrecommit}
  {r : ValidatedReveal} {k : RoleKey} {height : Nat} {role : UInt8} {α β : Type} {f : α → Option β} {l : List α}

theorem precommit_eq_none : s.precommit k = none ↔ ∀ p ∈ s.precommits, p.key ≠ k := by
  simp [precommit]

theorem reveal_eq_none : s.reveal k = none ↔ ∀ r ∈ s.reveals, r.key ≠ k := by
  simp [reveal]

theorem mem_of_precommit (h : s.precommit k = some p) : p ∈ s.precommits ∧ p.key = k :=
  ⟨List.mem_of_find?_eq_some h, by simpa using List.find?_some h⟩

theorem mem_of_reveal (h : s.reveal k = some r) : r ∈ s.reveals ∧ r.key = k :=
  ⟨List.mem_of_find?_eq_some h, by simpa using List.find?_some h⟩

/-- What an operation does: nothing, or it adds a precommit or a reveal of a new key. -/
theorem apply_cases (s : RoleProtocolStore) (op : RoleStoreOp) :
    (s.apply op = s ∧ (∀ p, op = .addPrecommit p → ∃ q ∈ s.precommits, q.key = p.key) ∧
      ∀ r, op = .addReveal r → (∃ pc, s.precommit r.key = some pc ∧ r.claim.commitmentHash = some pc.commitmentHash) →
        ∃ r' ∈ s.reveals, r'.key = r.key) ∨
    (∃ p, op = .addPrecommit p ∧ (∀ q ∈ s.precommits, q.key ≠ p.key) ∧
      s.apply op = { s with precommits := s.precommits ++ [p] }) ∨
    ∃ r pc, op = .addReveal r ∧ s.precommit r.key = some pc ∧ r.claim.commitmentHash = some pc.commitmentHash ∧
      s.apply op = { s with reveals := s.reveals ++ [r] } := by
  cases op with
  | addPrecommit p =>
    rw [apply, addPrecommit]
    cases hget : s.precommit p.key with
    | none => exact .inr (.inl ⟨p, rfl, precommit_eq_none.mp hget, rfl⟩)
    | some q =>
      refine .inl ⟨?_, fun p' hp' => ⟨q, ?_⟩, nofun⟩
      · simp only
        split <;> rfl
      · cases hp'
        exact mem_of_precommit hget
  | addReveal r =>
    rw [apply, addReveal]
    cases hget : s.precommit r.key with
    | none =>
      refine .inl ⟨rfl, nofun, ?_⟩
      rintro r' ⟨⟩ ⟨pc, hpc, -⟩
      exact absurd (hget.symm.trans hpc) (by simp)
    | some pc =>
      by_cases hopens : some pc.commitmentHash = r.claim.commitmentHash
      · simp only [Option.any_some, decide_eq_true hopens, if_true]
        cases hrev : s.reveal r.key with
        | none => exact .inr (.inr ⟨r, pc, rfl, hget, hopens.symm, rfl⟩)
        | some r' =>
          refine .inl ⟨?_, nofun, fun r'' hr'' _ => ⟨r', ?_⟩⟩
          · simp only
            split <;> rfl
          · cases hr''
            exact mem_of_reveal hrev
      · simp only [Option.any_some, decide_eq_false hopens]
        refine .inl ⟨rfl, nofun, ?_⟩
        rintro r' ⟨⟩ ⟨pc', hpc', hopens'⟩
        obtain rfl := Option.some.inj (hget.symm.trans hpc')
        exact absurd hopens'.symm hopens

theorem Matched.apply (hs : Matched s) (op : RoleStoreOp) : Matched (s.apply op) := by
  obtain ⟨heq, -⟩ | ⟨p, -, hnew, heq⟩ | ⟨r, pc, -, hpc, hopens, heq⟩ := apply_cases s op
  · rwa [heq]
  · rw [heq]
    refine ⟨?_, fun r hr => ?_⟩
    · simpa [List.nodup_append, hs.nodup] using hnew
    · obtain ⟨pc, hpc, h⟩ := hs.opens r hr
      exact ⟨pc, List.mem_append_left _ hpc, h⟩
  · rw [heq]
    refine ⟨hs.nodup, fun r' hr' => ?_⟩
    rcases List.mem_append.mp hr' with hold | hlast
    · exact hs.opens r' hold
    · obtain rfl := List.mem_singleton.mp hlast
      obtain ⟨hmem, hkey⟩ := mem_of_precommit hpc
      exact ⟨pc, hmem, hkey, hopens⟩

theorem Matched.run (hs : Matched s) (ops : List RoleStoreOp) : Matched (s.run ops) := by
  induction ops generalizing s with
  | nil => exact hs
  | cons op ops ih => exact ih (hs.apply op)

theorem matched_run (ops : List RoleStoreOp) : Matched (run {} ops) :=
  Matched.run (s := {}) ⟨List.nodup_nil, fun _ hr => absurd hr List.not_mem_nil⟩ ops

theorem Matched.eq_of_key (hs : Matched s) (hp : p ∈ s.precommits) (hq : q ∈ s.precommits) (h : p.key = q.key) : p = q :=
  List.inj_on_of_nodup_map hs.nodup hp hq h

theorem Matched.precommit (hs : Matched s) (hp : p ∈ s.precommits) : s.precommit p.key = some p := by
  cases hget : s.precommit p.key with
  | none => exact absurd rfl (precommit_eq_none.mp hget p hp)
  | some q =>
    obtain ⟨hq, hkey⟩ := mem_of_precommit hget
    rw [hs.eq_of_key hq hp hkey]

theorem subset_run (s : RoleProtocolStore) (ops : List RoleStoreOp) :
    s.precommits ⊆ (s.run ops).precommits ∧ s.reveals ⊆ (s.run ops).reveals := by
  induction ops generalizing s with
  | nil => exact ⟨List.Subset.refl _, List.Subset.refl _⟩
  | cons op ops ih =>
    have hstep : s.precommits ⊆ (s.apply op).precommits ∧ s.reveals ⊆ (s.apply op).reveals := by
      obtain ⟨heq, -⟩ | ⟨p, -, -, heq⟩ | ⟨r, pc, -, -, -, heq⟩ := apply_cases s op
      · rw [heq]
        exact ⟨List.Subset.refl _, List.Subset.refl _⟩
      · rw [heq]
        exact ⟨List.subset_append_left _ _, List.Subset.refl _⟩
      · rw [heq]
        exact ⟨List.Subset.refl _, List.subset_append_left _ _⟩
    exact ⟨List.Subset.trans hstep.1 (ih _).1, List.Subset.trans hstep.2 (ih _).2⟩

theorem mem_precommits_run (hp : p ∈ (s.run ops).precommits) : p ∈ s.precommits ∨ .addPrecommit p ∈ ops := by
  induction ops generalizing s with
  | nil => exact .inl hp
  | cons op ops ih =>
    rcases ih hp with hmem | hmem
    · obtain ⟨heq, -⟩ | ⟨q, rfl, -, heq⟩ | ⟨r, pc, -, -, -, heq⟩ := apply_cases s op
      · exact .inl (heq ▸ hmem)
      · rw [heq] at hmem
        rcases List.mem_append.mp hmem with hold | hlast
        · exact .inl hold
        · obtain rfl := List.mem_singleton.mp hlast
          exact .inr List.mem_cons_self
      · rw [heq] at hmem
        exact .inl hmem
    · exact .inr (List.mem_cons_of_mem _ hmem)

theorem exists_precommit_run (h : .addPrecommit p ∈ ops) : ∃ q ∈ (s.run ops).precommits, q.key = p.key := by
  induction ops generalizing s with
  | nil => cases h
  | cons op ops ih =>
    rcases List.mem_cons.mp h with rfl | h
    · have hstep : ∃ q ∈ (s.apply (.addPrecommit p)).precommits, q.key = p.key := by
        obtain ⟨heq, hold, -⟩ | ⟨q, hq, -, heq⟩ | ⟨r, pc, hr, -⟩ := apply_cases s (.addPrecommit p)
        · rw [heq]
          exact hold p rfl
        · cases hq
          exact ⟨p, by simp [heq], rfl⟩
        · cases hr
      obtain ⟨q, hq, hkey⟩ := hstep
      exact ⟨q, (subset_run _ ops).1 hq, hkey⟩
    · exact ih h

theorem exists_reveal_run (hs : Matched s) (hpc : pc ∈ s.precommits) (hkey : r.key = pc.key)
    (hopens : r.claim.commitmentHash = some pc.commitmentHash) (h : .addReveal r ∈ ops) :
    ∃ r' ∈ (s.run ops).reveals, r'.key = pc.key := by
  induction ops generalizing s with
  | nil => cases h
  | cons op ops ih =>
    rcases List.mem_cons.mp h with rfl | h
    · have hstep : ∃ r' ∈ (s.apply (.addReveal r)).reveals, r'.key = pc.key := by
        obtain ⟨heq, -, hold⟩ | ⟨q, hq, -⟩ | ⟨r', pc', hr, -, -, heq⟩ := apply_cases s (.addReveal r)
        · rw [heq, ← hkey]
          exact hold r rfl ⟨pc, by rw [hkey]; exact hs.precommit hpc, hopens⟩
        · cases hq
        · cases hr
          exact ⟨r, by simp [heq], hkey⟩
      obtain ⟨r', hr', hkey'⟩ := hstep
      exact ⟨r', (subset_run _ ops).2 hr', hkey'⟩
    · exact ih (hs.apply op) ((subset_run s [op]).1 hpc) h

theorem canonicalPrecommit_iff (hs : Matched s) :
    s.canonicalPrecommit height role = some pc ↔ pc ∈ s.precommits ∧ pc.targetHeight = height ∧ pc.roleId = role ∧
      ∀ q ∈ s.precommits, q.targetHeight = height → q.roleId = role → pc.solverPkh.toNat ≤ q.solverPkh.toNat := by
  have hlow : ∀ {m}, s.canonicalPrecommit height role = some m → m ∈ s.precommits ∧ m.targetHeight = height ∧
      m.roleId = role ∧ ∀ q ∈ s.precommits, q.targetHeight = height → q.roleId = role →
        m.solverPkh.toNat ≤ q.solverPkh.toNat := by
    intro m hm
    have hmem := List.argmin_mem hm
    rw [List.mem_filter, decide_eq_true_eq] at hmem
    refine ⟨hmem.1, hmem.2.1, hmem.2.2, fun q hq hheight hrole => ?_⟩
    have hle := List.le_of_mem_argmin (List.mem_filter.mpr ⟨hq, decide_eq_true ⟨hheight, hrole⟩⟩) hm
    rcases Prod.Lex.toLex_le_toLex.mp hle with hlt | heq
    · exact hlt.le
    · exact heq.1.le
  refine ⟨hlow, fun ⟨hmem, hheight, hrole, hle⟩ => ?_⟩
  cases hm : s.canonicalPrecommit height role with
  | none =>
    have hempty := List.argmin_eq_none.mp hm
    rw [List.filter_eq_nil_iff] at hempty
    exact absurd (decide_eq_true ⟨hheight, hrole⟩) (hempty pc hmem)
  | some m =>
    obtain ⟨hm, hmheight, hmrole, hmle⟩ := hlow hm
    have hpkh := ByteVec.toNat_injective ((hmle pc hmem hheight hrole).antisymm (hle m hm hmheight hmrole))
    rw [hs.eq_of_key hm hmem
      (by rw [ValidatedPrecommit.key, ValidatedPrecommit.key, hmheight, hheight, hmrole, hrole, hpkh])]

theorem mapM_option_cases {bs : List β} (h : l.mapM f = some bs) :
    l.map f = bs.map some := by
  induction l generalizing bs with
  | nil => simp_all
  | cons a l ih =>
    simp only [List.mapM_cons, Option.bind_eq_bind, Option.bind_eq_some_iff, Option.pure_def, Option.some.injEq] at h
    obtain ⟨b, hb, bs', hbs', rfl⟩ := h
    rw [List.map_cons, hb, ih hbs', List.map_cons]

theorem exists_mapM {γ : Type} {g : β → Option γ} {g' : α → Option γ} (h : ∀ a ∈ l, ∃ b, f a = some b ∧ g b = g' a) :
    ∃ bs, l.mapM f = some bs ∧ bs.mapM g = l.mapM g' := by
  induction l with
  | nil => exact ⟨[], rfl, rfl⟩
  | cons a l ih =>
    obtain ⟨b, hb, hg⟩ := h a List.mem_cons_self
    obtain ⟨bs, hbs, hgs⟩ := ih fun a' ha' => h a' (List.mem_cons_of_mem _ ha')
    exact ⟨b :: bs, by simp [hb, hbs], by simp [hg, hgs]⟩

/-- A later precommit for the height undercuts the canonical one of its role. -/
def Undercut (s : RoleProtocolStore) (later : List RoleStoreOp) (height : Nat) : Prop :=
  ∃ role ∈ roleIds.toList, ∃ pc ∈ s.canonicalPrecommit height role, ∃ p, .addPrecommit p ∈ later ∧
    p.targetHeight = height ∧ p.roleId = role ∧ p.solverPkh.toNat < pc.solverPkh.toNat

theorem canonicalPrecommit_run {later : List RoleStoreOp} (hs : Matched s) (hrole : role ∈ roleIds.toList)
    (hpc : s.canonicalPrecommit height role = some pc) (h : ¬Undercut s later height) :
    (s.run later).canonicalPrecommit height role = some pc := by
  obtain ⟨hmem, hheight, hpcrole, hle⟩ := (canonicalPrecommit_iff hs).mp hpc
  refine (canonicalPrecommit_iff (hs.run later)).mpr ⟨(subset_run s later).1 hmem, hheight, hpcrole, fun q hq hqh hqr => ?_⟩
  rcases mem_precommits_run hq with hold | hnew
  · exact hle q hold hqh hqr
  · by_contra hlt
    exact h ⟨role, hrole, pc, hpc, q, hnew, hqh, hqr, Nat.lt_of_not_le hlt⟩

theorem selectReveal_canonical (hs : Matched s) (hpc : s.canonicalPrecommit height role = some pc)
    (hrev : ∃ r ∈ s.reveals, r.key = pc.key) :
    ∃ r, s.selectReveal height role = some r ∧ s.precommit r.key = some pc := by
  obtain ⟨hmem, rfl, rfl, -⟩ := (canonicalPrecommit_iff hs).mp hpc
  cases hget : s.reveal pc.key with
  | none =>
    obtain ⟨r, hr, hkey⟩ := hrev
    exact absurd hkey (reveal_eq_none.mp hget r hr)
  | some r =>
    obtain ⟨hr, hkey⟩ := mem_of_reveal hget
    obtain ⟨pc', hpc', hkey', hopens⟩ := hs.opens r hr
    obtain rfl := hs.eq_of_key hpc' hmem (hkey'.trans hkey)
    refine ⟨r, ?_, by rw [hkey]; exact hs.precommit hmem⟩
    rw [selectReveal, hpc]
    change (s.reveal pc'.key).bind _ = _
    rw [hget, Option.bind_some, if_pos hopens]

theorem selectReveal_solver {r : ValidatedReveal} (h : s.selectReveal height role = some r) :
    ∃ pc, s.canonicalPrecommit height role = some pc ∧ r.claim.solverPkh = pc.solverPkh := by
  obtain ⟨pc, hpc, h⟩ := Option.bind_eq_some_iff.mp h
  obtain ⟨r', hget, h⟩ := Option.bind_eq_some_iff.mp h
  obtain ⟨-, h⟩ := Option.ite_none_right_eq_some.mp h
  obtain rfl := Option.some.inj h
  obtain ⟨-, hkey⟩ := mem_of_reveal hget
  exact ⟨pc, hpc, (Prod.ext_iff.mp (Prod.ext_iff.mp hkey).2).2⟩

/-- Once the committed parties have revealed, their reveals are selected and give the root, unless a later precommit
undercuts one of them; then the reveals of the three are not selected. -/
theorem select_reveals_committed {C : Crypto} {ops later : List RoleStoreOp} {root : Hash32}
    (hroot : precommitRootFor C (run {} ops) height = some root)
    (hreveal : ∀ role ∈ roleIds.toList, ∀ pc ∈ (run {} ops).canonicalPrecommit height role,
      ∃ r, .addReveal r ∈ later ∧ r.key = pc.key ∧ r.claim.commitmentHash = some pc.commitmentHash) :
    (¬Undercut (run {} ops) later height →
      ∃ rs, selectReveals (run {} (ops ++ later)) height = some rs ∧ rootOf C (run {} (ops ++ later)) rs = some root) ∧
    (Undercut (run {} ops) later height → ∀ rs, selectReveals (run {} (ops ++ later)) height = some rs →
      rs.map (fun r => some r.claim.solverPkh) ≠
        roleIds.toList.map fun role => ((run {} ops).canonicalPrecommit height role).map (·.solverPkh)) := by
  have hs := matched_run ops
  rw [show run {} (ops ++ later) = (run {} ops).run later from List.foldl_append]
  generalize run {} ops = s at *
  obtain ⟨leaves, hleaves, -⟩ := Option.bind_eq_some_iff.mp hroot
  have hsome := mapM_option_cases hleaves
  have hcanonical : ∀ role ∈ roleIds.toList, ∃ pc, s.canonicalPrecommit height role = some pc := by
    intro role hrole
    have hmem := List.mem_map_of_mem (f := fun role => (s.canonicalPrecommit height role).map (·.leaf C)) hrole
    rw [hsome, List.mem_map] at hmem
    obtain ⟨leaf, -, hleaf⟩ := hmem
    obtain ⟨pc, hpc, -⟩ := Option.map_eq_some_iff.mp hleaf.symm
    exact ⟨pc, hpc⟩
  constructor
  · intro hkept
    have hselect : ∀ role ∈ roleIds.toList, ∃ r, (s.run later).selectReveal height role = some r ∧
        ((s.run later).precommit r.key).map (·.leaf C) = (s.canonicalPrecommit height role).map (·.leaf C) := by
      intro role hrole
      obtain ⟨pc, hpc⟩ := hcanonical role hrole
      obtain ⟨r, hr, hkey, hopens⟩ := hreveal role hrole pc hpc
      have hmem := ((canonicalPrecommit_iff hs).mp hpc).1
      obtain ⟨r', hr', hget⟩ := selectReveal_canonical (hs.run later) (canonicalPrecommit_run hs hrole hpc hkept)
        (exists_reveal_run hs hmem hkey hopens hr)
      exact ⟨r', hr', by rw [hget, hpc]⟩
    obtain ⟨rs, hrs, hleaves'⟩ := exists_mapM hselect
    refine ⟨rs, hrs, ?_⟩
    rw [rootOf, hleaves']
    exact hroot
  · rintro ⟨role, hrole, pc, hpc, p, hp, hheight, hprole, hlt⟩ rs hrs heq
    have hmap := congrArg (List.map (Option.map (·.claim.solverPkh))) (mapM_option_cases hrs)
    rw [List.map_map, List.map_map] at hmap
    have hparty := List.map_inj_left.mp (hmap.trans heq) role hrole
    obtain ⟨r, hr, hrpkh⟩ := Option.map_eq_some_iff.mp (hparty.trans (congrArg _ hpc))
    obtain ⟨pc', hpc', hsolver⟩ := selectReveal_solver hr
    obtain ⟨q, hq, hkey⟩ := exists_precommit_run (s := s) hp
    obtain ⟨hqh, hqr, hqp⟩ : q.targetHeight = p.targetHeight ∧ q.roleId = p.roleId ∧ q.solverPkh = p.solverPkh := by
      simpa [ValidatedPrecommit.key] using hkey
    have hle := ((canonicalPrecommit_iff (hs.run later)).mp hpc').2.2.2 q hq (hqh.trans hheight) (hqr.trans hprole)
    rw [hqp, ← hsolver, hrpkh] at hle
    exact absurd hle (Nat.not_le.mpr hlt)

def solver (b : UInt8) : Pkh := ⟨List.replicate 20 b, by simp⟩

def commitmentOf : Hash32 := rolePrecommitCommitment shaCrypto (ByteVec.zero 32) (ByteVec.zero 32)

def precommitOf (b : UInt8) (roleId : UInt8) : RoleStoreOp := .addPrecommit ⟨1, 10, roleId, solver b, commitmentOf⟩

def revealOf (b : UInt8) (roleId : UInt8) : RoleStoreOp :=
  .addReveal ⟨1, 10, ⟨roleId, 0, solver b, ByteVec.zero 32, ByteVec.zero 32, ByteVec.zero 32, some commitmentOf⟩⟩

theorem select_reveals_committed_three :
    ∃ root rs, precommitRootFor shaCrypto (run {} (roleIds.toList.map (precommitOf 2))) 10 = some root ∧
      selectReveals (run {} (roleIds.toList.map (precommitOf 2) ++ roleIds.toList.map (revealOf 2))) 10 = some rs ∧
      rootOf shaCrypto (run {} (roleIds.toList.map (precommitOf 2) ++ roleIds.toList.map (revealOf 2))) rs =
        some root := by
  have hsome : (precommitRootFor shaCrypto (run {} (roleIds.toList.map (precommitOf 2))) 10).isSome := by
    decide +kernel
  obtain ⟨root, hroot⟩ := Option.isSome_iff_exists.mp hsome
  have hpc : ∀ role ∈ roleIds.toList, ∀ pc ∈ (run {} (roleIds.toList.map (precommitOf 2))).canonicalPrecommit 10 role,
      pc = ⟨1, 10, role, solver 2, commitmentOf⟩ := by decide +kernel
  have hreveal : ∀ role ∈ roleIds.toList,
      ∀ pc ∈ (run {} (roleIds.toList.map (precommitOf 2))).canonicalPrecommit 10 role,
        ∃ r, .addReveal r ∈ roleIds.toList.map (revealOf 2) ∧ r.key = pc.key ∧
          r.claim.commitmentHash = some pc.commitmentHash := by
    intro role hrole pc hmem
    rw [hpc role hrole pc hmem]
    exact ⟨_, List.mem_map_of_mem hrole, rfl, rfl⟩
  obtain ⟨rs, hrs⟩ := (select_reveals_committed hroot hreveal).1 fun ⟨_, _, _, _, p, hp, _⟩ => by
    simp [revealOf] at hp
  exact ⟨root, rs, hroot, hrs⟩

/-- The three reveal, but a solver with a lower hash has sent a precommit for the first role before that. -/
theorem select_reveals_undercut :
    (precommitRootFor shaCrypto (run {} (roleIds.toList.map (precommitOf 2))) 10).isSome ∧
      (selectReveals (run {} (roleIds.toList.map (precommitOf 2) ++
        precommitOf 1 roleComputeContributor :: roleIds.toList.map (revealOf 2))) 10).isNone := by
  decide +kernel

def roleProtocolHeightWindow : Nat := 64

def prune (s : RoleProtocolStore) (tipHeight : Nat) : RoleProtocolStore :=
  let cutoff := tipHeight - roleProtocolHeightWindow
  ⟨s.precommits.filter (cutoff < ·.targetHeight), s.reveals.filter (cutoff < ·.targetHeight)⟩

/-- A request to the pool: the tip if the node reports it, and what is sent if it is valid. -/
structure RoleRequest where
  tip : Option Nat
  op : Option RoleStoreOp

def request (s : RoleProtocolStore) (r : RoleRequest) : RoleProtocolStore :=
  let pruned := r.tip.elim s s.prune
  r.op.elim pruned pruned.apply

def serve (s : RoleProtocolStore) (rs : List RoleRequest) : RoleProtocolStore := rs.foldl request s

/-- No prune reaches the height. -/
def KeepsHeight (height : Nat) (rs : List RoleRequest) : Prop :=
  ∀ r ∈ rs, ∀ tip ∈ r.tip, tip - roleProtocolHeightWindow < height

def precommitsAt (s : RoleProtocolStore) (height : Nat) : List ValidatedPrecommit :=
  s.precommits.filter (·.targetHeight = height)

section

variable {t : RoleProtocolStore} {rs rs' : List RoleRequest}

theorem precommit_at (hk : k.1 = height) : s.precommit k = (s.precommitsAt height).find? (·.key = k) := by
  rw [precommitsAt, List.find?_filter, precommit]
  congr 1
  funext p
  have hheight : p.key = k → p.targetHeight = height := fun hkey => (congrArg Prod.fst hkey).trans hk
  rw [Bool.eq_iff_iff]
  simpa using hheight

theorem precommitsAt_prune {tip : Nat} (h : tip - roleProtocolHeightWindow < height) :
    (s.prune tip).precommitsAt height = s.precommitsAt height := by
  rw [precommitsAt, prune, List.filter_filter]
  refine List.filter_congr fun p _ => ?_
  rw [Bool.eq_iff_iff]
  simp only [Bool.and_eq_true, decide_eq_true_eq]
  omega

theorem precommitsAt_apply (h : s.precommitsAt height = t.precommitsAt height) (op : RoleStoreOp) :
    (s.apply op).precommitsAt height = (t.apply op).precommitsAt height := by
  by_cases hop : ∃ p, op = .addPrecommit p ∧ p.targetHeight = height
  · obtain ⟨p, rfl, hp⟩ := hop
    have hget : s.precommit p.key = t.precommit p.key := by rw [precommit_at hp, precommit_at hp, h]
    simp only [apply, addPrecommit, hget]
    cases t.precommit p.key with
    | none => simpa [precommitsAt, Except.toOption] using h
    | some q =>
      simp only
      split <;> exact h
  · have hsame : ∀ s : RoleProtocolStore, (s.apply op).precommitsAt height = s.precommitsAt height := by
      intro s
      obtain ⟨heq, -⟩ | ⟨p, rfl, -, heq⟩ | ⟨r, pc, -, -, -, heq⟩ := apply_cases s op
      · rw [heq]
      · rw [heq, precommitsAt, List.filter_append, List.filter_cons_of_neg (by simpa using hop), List.filter_nil,
          List.append_nil, precommitsAt]
      · rw [heq, precommitsAt, precommitsAt]
    rw [hsame, hsame, h]

/-- At a height that no prune reaches, the pool has the precommits that it would have without prunes. -/
theorem precommitsAt_serve (hkept : KeepsHeight height rs) (h : s.precommitsAt height = t.precommitsAt height) :
    (s.serve rs).precommitsAt height = (t.run (rs.filterMap (·.op))).precommitsAt height := by
  induction rs generalizing s t with
  | nil => exact h
  | cons r rs ih =>
    have hrs : KeepsHeight height rs := fun r' hr' => hkept r' (List.mem_cons_of_mem _ hr')
    have hpruned : (r.tip.elim s s.prune).precommitsAt height = t.precommitsAt height := by
      cases htip : r.tip with
      | none => exact h
      | some tip => exact (precommitsAt_prune (hkept r List.mem_cons_self tip htip)).trans h
    cases hop : r.op with
    | none =>
      rw [List.filterMap_cons_none hop]
      exact ih (s := s.request r) hrs (by rw [request, hop]; exact hpruned)
    | some op =>
      rw [List.filterMap_cons_some hop]
      exact ih (s := s.request r) (t := t.apply op) hrs (by rw [request, hop]; exact precommitsAt_apply hpruned op)

theorem mem_precommits_iff (hone : ∀ p q, .addPrecommit p ∈ ops → .addPrecommit q ∈ ops → p.targetHeight = height →
    p.key = q.key → p = q) (hp : p.targetHeight = height) : p ∈ (run {} ops).precommits ↔ .addPrecommit p ∈ ops := by
  have hsent : ∀ {q}, q ∈ (run {} ops).precommits → .addPrecommit q ∈ ops := fun hq =>
    (mem_precommits_run hq).resolve_left List.not_mem_nil
  refine ⟨hsent, fun h => ?_⟩
  obtain ⟨q, hq, hkey⟩ := exists_precommit_run (s := {}) h
  rwa [hone p q h (hsent hq) hp hkey.symm]

theorem canonicalPrecommit_mono (hs : Matched s) (ht : Matched t)
    (hmem : ∀ p, p.targetHeight = height → (p ∈ s.precommits ↔ p ∈ t.precommits))
    (h : s.canonicalPrecommit height role = some pc) : t.canonicalPrecommit height role = some pc := by
  obtain ⟨hpc, hheight, hrole, hle⟩ := (canonicalPrecommit_iff hs).mp h
  exact (canonicalPrecommit_iff ht).mpr
    ⟨(hmem pc hheight).mp hpc, hheight, hrole, fun q hq hqh => hle q ((hmem q hqh).mpr hq) hqh⟩

theorem precommitRootFor_congr {C : Crypto} (h : s.precommitsAt height = t.precommitsAt height) :
    precommitRootFor C s height = precommitRootFor C t height := by
  have hcanonical : ∀ s : RoleProtocolStore, s.canonicalPrecommit height = fun role =>
      ((s.precommitsAt height).filter (·.roleId = role)).argmin fun p =>
        toLex (p.solverPkh.toNat, p.commitmentHash.toNat) := by
    intro s
    funext role
    simp only [canonicalPrecommit, precommitsAt, List.filter_filter, Bool.decide_and, Bool.and_comm]
  simp only [precommitRootFor, hcanonical, h]

/-- Two pools that are sent the same precommits for a height, in whatever order, among whatever else and however often,
commit the height to the same root, if no solver sends two for a role and no prune reaches the height. -/
theorem precommit_root_confluent {C : Crypto} (hkept : KeepsHeight height rs) (hkept' : KeepsHeight height rs')
    (hsame : ∀ p, p.targetHeight = height →
      (.addPrecommit p ∈ rs.filterMap (·.op) ↔ .addPrecommit p ∈ rs'.filterMap (·.op)))
    (hone : ∀ p q, .addPrecommit p ∈ rs.filterMap (·.op) → .addPrecommit q ∈ rs.filterMap (·.op) →
      p.targetHeight = height → p.key = q.key → p = q) :
    precommitRootFor C (serve {} rs) height = precommitRootFor C (serve {} rs') height := by
  have hone' : ∀ p q, .addPrecommit p ∈ rs'.filterMap (·.op) → .addPrecommit q ∈ rs'.filterMap (·.op) →
      p.targetHeight = height → p.key = q.key → p = q := by
    intro p q hp hq hheight hkey
    have hqh : q.targetHeight = height := (congrArg Prod.fst hkey).symm.trans hheight
    exact hone p q ((hsame p hheight).mpr hp) ((hsame q hqh).mpr hq) hheight hkey
  have hmem : ∀ p, p.targetHeight = height →
      (p ∈ (run {} (rs.filterMap (·.op))).precommits ↔ p ∈ (run {} (rs'.filterMap (·.op))).precommits) := by
    intro p hp
    rw [mem_precommits_iff hone hp, mem_precommits_iff hone' hp, hsame p hp]
  have hcanonical : (run {} (rs.filterMap (·.op))).canonicalPrecommit height =
      (run {} (rs'.filterMap (·.op))).canonicalPrecommit height := by
    funext role
    ext pc
    exact ⟨canonicalPrecommit_mono (matched_run _) (matched_run _) hmem,
      canonicalPrecommit_mono (matched_run _) (matched_run _) fun p hp => (hmem p hp).symm⟩
  rw [precommitRootFor_congr (precommitsAt_serve hkept rfl), precommitRootFor_congr (precommitsAt_serve hkept' rfl),
    precommitRootFor, precommitRootFor, hcanonical]

/-- The three precommits for height 10, and the same after a prune at tip 70 in the reverse order. -/
theorem precommit_root_confluent_three :
    (precommitRootFor shaCrypto (serve {} (roleIds.toList.map fun r => ⟨none, precommitOf 2 r⟩)) 10).isSome ∧
      precommitRootFor shaCrypto (serve {} (roleIds.toList.map fun r => ⟨none, precommitOf 2 r⟩)) 10 =
        precommitRootFor shaCrypto (serve {} (roleIds.toList.reverse.map fun r => ⟨some 70, precommitOf 2 r⟩)) 10 := by
  refine ⟨by decide +kernel, precommit_root_confluent ?_ ?_ (fun p _ => ?_) fun p q hp hq _ hkey => ?_⟩
  · simp [KeepsHeight]
  · simp [KeepsHeight, roleProtocolHeightWindow]
  · simp
  · simp only [List.filterMap_map, List.mem_filterMap, Function.comp_apply, precommitOf, Option.some.injEq,
      RoleStoreOp.addPrecommit.injEq] at hp hq
    obtain ⟨r, -, rfl⟩ := hp
    obtain ⟨r', -, rfl⟩ := hq
    simp only [ValidatedPrecommit.key, Prod.mk.injEq] at hkey
    rw [hkey.2.1]

end

end RoleProtocolStore

end IriumConsensus
