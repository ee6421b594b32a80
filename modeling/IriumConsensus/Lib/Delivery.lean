import Mathlib.Data.Finset.Max
import Mathlib.Data.List.Infix

namespace Delivery

variable {α : Type}

/-- A branch of a tree is given with its newest item first; the root is the empty branch and always known. -/
def Known (seen : List (List α)) (x : List α) : Prop := x = [] ∨ x ∈ seen

def Leaf (seen : List (List α)) (x : List α) : Prop := ∀ a, a :: x ∉ seen

def Closed (seen : List (List α)) : Prop := ∀ a below, a :: below ∈ seen → Known seen below

/-- Each branch that arrives is new and goes on from a known one. -/
def Arrives : List (List α) → List (List α) → Prop
  | _, [] => True
  | seen, x :: rest => (∃ a below, x = a :: below ∧ Known seen below) ∧ x ∉ seen ∧ Arrives (x :: seen) rest

/-- All branches of a tree arrive, each of them once and after the one it goes on from. -/
structure Orders (T order : List (List α)) : Prop where
  arrives : Arrives [] order
  all : ∀ x, x ∈ order ↔ x ∈ T

variable {seen seen' T order : List (List α)} {a : α} {x y w below cur : List α}

section

variable [DecidableEq α]

instance (seen : List (List α)) (x : List α) : Decidable (Known seen x) := inferInstanceAs (Decidable (_ ∨ _))

instance (seen : List (List α)) (x : List α) : Decidable (Leaf seen x) :=
  decidable_of_iff (∀ y ∈ seen, y = [] ∨ y.tail ≠ x)
    ⟨fun h a ha => (h _ ha).elim (List.cons_ne_nil a x) fun hne => hne rfl, fun h y hy => by
      cases y with
      | nil => exact .inl rfl
      | cons a y => exact .inr fun heq => h a (heq ▸ hy)⟩

instance decidableArrives : (seen order : List (List α)) → Decidable (Arrives seen order)
  | _, [] => .isTrue trivial
  | _, [] :: _ => .isFalse (by simp [Arrives])
  | seen, (a :: below) :: rest =>
    have := decidableArrives ((a :: below) :: seen) rest
    decidable_of_iff (Known seen below ∧ a :: below ∉ seen ∧ Arrives ((a :: below) :: seen) rest)
      (by simp [Arrives])

instance (T order : List (List α)) : Decidable (Orders T order) :=
  decidable_of_iff (Arrives [] order ∧ (∀ x ∈ order, x ∈ T) ∧ ∀ x ∈ T, x ∈ order)
    ⟨fun ⟨ho, h, h'⟩ => ⟨ho, fun x => ⟨h x, h' x⟩⟩, fun h => ⟨h.arrives, fun x => (h.all x).mp, fun x => (h.all x).mpr⟩⟩

end

theorem Known.mono (h : Known seen x) (hsub : seen ⊆ seen') : Known seen' x := h.imp_right (hsub ·)

theorem Known.cons (h : Known seen x) (y : List α) : Known (y :: seen) x := h.mono (List.subset_cons_self y seen)

theorem Known.mem (h : Known seen (a :: below)) : a :: below ∈ seen := h.resolve_left (List.cons_ne_nil a below)

theorem Closed.cons (h : Closed seen) (hb : Known seen below) : Closed ((a :: below) :: seen) := by
  intro c rest hc
  rcases List.mem_cons.mp hc with heq | hc
  · cases heq
    exact hb.cons _
  · exact (h c rest hc).cons _

theorem Closed.suffix (h : Closed seen) (hx : Known seen x) (hy : y <:+ x) : Known seen y := by
  induction x with
  | nil => exact .inl (List.suffix_nil.mp hy)
  | cons a x ih =>
    rcases List.suffix_cons_iff.mp hy with rfl | hy
    · exact hx
    · exact ih (h a x hx.mem) hy

theorem Leaf.eq_of_suffix (hl : Leaf seen x) (hc : Closed seen) (hy : Known seen y) (h : x <:+ y) : x = y := by
  obtain ⟨above, rfl⟩ := h
  rcases List.eq_nil_or_concat above with rfl | ⟨above, c, rfl⟩
  · rfl
  · rw [List.concat_append] at hy
    exact absurd (hc.suffix hy (List.suffix_append above (c :: x))).mem (hl c)

theorem arrives_append {order' : List (List α)} :
    Arrives seen (order ++ order') ↔ Arrives seen order ∧ Arrives (order.reverse ++ seen) order' := by
  induction order generalizing seen with
  | nil => simp [Arrives]
  | cons x order ih => simp [Arrives, ih, and_assoc]

section

variable [DecidableEq α] (better : List α → List α → Bool)

/-- What arrives extends the current branch, takes its place if it is better, or is set aside. -/
def deliver (cur x : List α) : List α := if x.tail = cur then x else if better x cur then x else cur

def deliverAll (cur : List α) (order : List (List α)) : List α := order.foldl (deliver better) cur

/-- The known branches belong together, and nothing stands on the current one. -/
structure Current (seen : List (List α)) (cur : List α) : Prop where
  closed : Closed seen
  known : Known seen cur
  leaf : Leaf seen cur

omit [DecidableEq α] in
theorem Current.root : Current ([] : List (List α)) [] :=
  ⟨fun _ _ h => absurd h List.not_mem_nil, .inl rfl, fun _ => List.not_mem_nil⟩

theorem deliver_cases (cur x : List α) : deliver better cur x = x ∨ deliver better cur x = cur ∧ x.tail ≠ cur := by
  unfold deliver
  split_ifs with htail hbetter
  · exact .inl rfl
  · exact .inl rfl
  · exact .inr ⟨rfl, htail⟩

theorem Current.deliver (h : Current seen cur) (hb : Known seen below) (hfresh : a :: below ∉ seen) :
    Current ((a :: below) :: seen) (deliver better cur (a :: below)) := by
  refine ⟨h.closed.cons hb, ?_, ?_⟩
  · rcases deliver_cases better cur (a :: below) with heq | ⟨heq, -⟩
    · rw [heq]
      exact .inr List.mem_cons_self
    · rw [heq]
      exact h.known.cons _
  · intro c hc
    rcases deliver_cases better cur (a :: below) with heq | ⟨heq, hne⟩
    · rw [heq] at hc
      rcases List.mem_cons.mp hc with heq | hc
      · have := congrArg List.length heq
        simp at this
      · exact hfresh (h.closed c _ hc).mem
    · rw [heq] at hc
      rcases List.mem_cons.mp hc with heq | hc
      · cases heq
        exact hne rfl
      · exact h.leaf c hc

theorem Current.deliverAll (h : Current seen cur) (ho : Arrives seen order) :
    Current (order.reverse ++ seen) (deliverAll better cur order) := by
  induction order generalizing seen cur with
  | nil => exact h
  | cons x order ih =>
    obtain ⟨⟨a, below, rfl, hb⟩, hfresh, ho⟩ := ho
    rw [List.reverse_cons, List.append_assoc]
    exact ih (h.deliver better hb hfresh) ho

theorem Orders.current (ho : Orders T order) (hc : Closed T) : Current T (Delivery.deliverAll better [] order) := by
  have hend := Current.root.deliverAll better ho.arrives
  rw [List.append_nil] at hend
  have hmem : ∀ x, x ∈ order.reverse ↔ x ∈ T := fun x => List.mem_reverse.trans (ho.all x)
  exact ⟨hc, hend.known.mono fun x hx => (hmem x).mp hx, fun a ha => hend.leaf a ((hmem _).mpr ha)⟩

theorem deliverAll_append (cur : List α) (order order' : List (List α)) :
    deliverAll better cur (order ++ order') = deliverAll better (deliverAll better cur order) order' :=
  List.foldl_append

theorem deliverAll_mem (cur : List α) (order : List (List α)) :
    deliverAll better cur order = cur ∨ deliverAll better cur order ∈ order := by
  induction order generalizing cur with
  | nil => exact .inl rfl
  | cons x order ih =>
    rcases ih (deliver better cur x) with hsame | hmem
    · rcases deliver_cases better cur x with heq | ⟨heq, -⟩
      · exact .inr (List.mem_cons.mpr (.inl (hsame.trans heq)))
      · exact .inl (hsame.trans heq)
    · exact .inr (List.mem_cons_of_mem x hmem)

/-- A branch that stands on every other one or is better, and on which none stands and none is better. -/
structure Winner (T : List (List α)) (w : List α) : Prop where
  known : Known T w
  beats : ∀ y, Known T y → y <:+ w ∨ ¬w <:+ y ∧ better w y ∧ better y w = false

variable {better}

theorem Winner.deliver (hw : Winner better T w) (h : Current seen cur) (hsub : seen ⊆ T) (hx : a :: below ∈ T)
    (hb : Known seen below) (hfresh : a :: below ∉ seen) (hlead : Known seen w → cur = w)
    (hknown : Known ((a :: below) :: seen) w) : deliver better cur (a :: below) = w := by
  unfold Delivery.deliver
  by_cases heq : w = a :: below
  · subst heq
    split_ifs with htail hbetter
    · rfl
    · rfl
    · rcases hw.beats cur (h.known.mono hsub) with hsuffix | ⟨-, hbeats, -⟩
      · rcases List.suffix_cons_iff.mp hsuffix with hcur | hsuffix
        · exact hcur
        · exact absurd (h.leaf.eq_of_suffix h.closed hb hsuffix).symm htail
      · exact absurd hbeats hbetter
  · have hwseen : Known seen w := hknown.imp_right fun hmem => (List.mem_cons.mp hmem).resolve_left heq
    obtain rfl := hlead hwseen
    rcases hw.beats _ (.inr hx) with hsuffix | ⟨hover, -, hbeats⟩
    · exact absurd (h.closed.suffix hwseen hsuffix).mem hfresh
    · have htail : (a :: below).tail ≠ cur := by
        rintro rfl
        exact hover (List.suffix_cons a below)
      rw [if_neg htail, hbeats, if_neg Bool.false_ne_true]

theorem Winner.deliverAll (hw : Winner better T w) (h : Current seen cur) (ho : Arrives seen order)
    (hall : ∀ x, x ∈ seen ∨ x ∈ order ↔ x ∈ T) (hlead : Known seen w → cur = w) :
    deliverAll better cur order = w := by
  induction order generalizing seen cur with
  | nil => exact hlead (hw.known.imp_right fun hmem => ((hall w).mpr hmem).resolve_right List.not_mem_nil)
  | cons x order ih =>
    obtain ⟨⟨a, below, rfl, hb⟩, hfresh, ho⟩ := ho
    have hsub : seen ⊆ T := fun x hx => (hall x).mp (.inl hx)
    have hx : a :: below ∈ T := (hall _).mp (.inr List.mem_cons_self)
    refine ih (h.deliver better hb hfresh) ho (fun x => ?_) (hw.deliver h hsub hx hb hfresh hlead)
    rw [← hall x, List.mem_cons, List.mem_cons]
    tauto

theorem Winner.deliverAll_eq (hw : Winner better T w) (ho : Orders T order) : Delivery.deliverAll better [] order = w := by
  refine hw.deliverAll .root ho.arrives (fun x => ?_) fun hroot => (hroot.resolve_right List.not_mem_nil).symm
  rw [← ho.all x, or_iff_right List.not_mem_nil]

end

section

variable [DecidableEq α] {better : List α → List α → Bool}

def path (seen : List (List α)) : List α → List (List α)
  | [] => []
  | a :: below => if a :: below ∈ seen then [] else path seen below ++ [a :: below]

def paths (seen : List (List α)) : List (List α) → List (List α)
  | [] => []
  | x :: xs => path seen x ++ paths ((path seen x).reverse ++ seen) xs

theorem mem_path (h : y ∈ path seen x) : y <:+ x ∧ y ∉ seen ∧ y ≠ [] := by
  induction x with
  | nil => exact absurd h List.not_mem_nil
  | cons a below ih =>
    unfold path at h
    split_ifs at h with hmem
    · exact absurd h List.not_mem_nil
    · rcases List.mem_append.mp h with h | h
      · obtain ⟨hsuffix, hrest⟩ := ih h
        exact ⟨hsuffix.trans (List.suffix_cons a below), hrest⟩
      · obtain rfl := List.mem_singleton.mp h
        exact ⟨List.suffix_rfl, hmem, List.cons_ne_nil a below⟩

theorem known_path (seen : List (List α)) (x : List α) : Known ((path seen x).reverse ++ seen) x := by
  cases x with
  | nil => exact .inl rfl
  | cons a below =>
    unfold path
    split_ifs with hmem
    · exact .inr hmem
    · refine .inr ?_
      simp

theorem arrives_path (seen : List (List α)) (x : List α) : Arrives seen (path seen x) := by
  induction x with
  | nil => trivial
  | cons a below ih =>
    unfold path
    split_ifs with hmem
    · trivial
    · refine arrives_append.mpr ⟨ih, ⟨a, below, rfl, known_path seen below⟩, ?_, trivial⟩
      intro h
      rcases List.mem_append.mp h with h | h
      · have hlen := (mem_path (List.mem_reverse.mp h)).1.length_le
        rw [List.length_cons] at hlen
        omega
      · exact hmem h

theorem arrives_paths (seen xs : List (List α)) : Arrives seen (paths seen xs) := by
  induction xs generalizing seen with
  | nil => trivial
  | cons x xs ih => exact arrives_append.mpr ⟨arrives_path seen x, ih _⟩

theorem mem_paths {xs : List (List α)} (h : y ∈ paths seen xs) : ∃ x ∈ xs, y <:+ x ∧ y ∉ seen ∧ y ≠ [] := by
  induction xs generalizing seen with
  | nil => exact absurd h List.not_mem_nil
  | cons x xs ih =>
    rcases List.mem_append.mp h with h | h
    · exact ⟨x, List.mem_cons_self, mem_path h⟩
    · obtain ⟨z, hz, hsuffix, hfresh, hne⟩ := ih h
      exact ⟨z, List.mem_cons_of_mem x hz, hsuffix, fun hmem => hfresh (List.mem_append_right _ hmem), hne⟩

theorem known_paths (seen : List (List α)) {xs : List (List α)} (h : x ∈ xs) : Known ((paths seen xs).reverse ++ seen) x := by
  induction xs generalizing seen with
  | nil => exact absurd h List.not_mem_nil
  | cons z xs ih =>
    rw [paths, List.reverse_append, List.append_assoc]
    rcases List.mem_cons.mp h with rfl | h
    · exact (known_path seen x).mono (List.subset_append_right _ _)
    · exact ih _ h

theorem orders_paths (hc : Closed T) (hroot : [] ∉ T) (xs : List (List α)) (hxs : ∀ x ∈ xs, Known T x) :
    Orders T (paths [] (xs ++ T)) := by
  refine ⟨arrives_paths _ _, fun x => ⟨fun h => ?_, fun h => ?_⟩⟩
  · obtain ⟨z, hz, hsuffix, -, hne⟩ := mem_paths h
    have hknown : Known T z := (List.mem_append.mp hz).elim (hxs z) .inr
    exact (hc.suffix hknown hsuffix).resolve_left hne
  · have hknown := known_paths [] (List.mem_append_right xs h)
    rw [List.append_nil] at hknown
    refine List.mem_reverse.mp (hknown.resolve_left ?_)
    rintro rfl
    exact hroot h

theorem deliverAll_path_root (x : List α) : deliverAll better [] (path [] x) = x := by
  induction x with
  | nil => rfl
  | cons a below ih =>
    rw [path, if_neg List.not_mem_nil, deliverAll_append, ih]
    exact if_pos rfl

theorem deliverAll_path (better : List α → List α → Bool) (seen : List (List α)) (hover : ¬cur <:+ x) :
    deliverAll better cur (path seen x) = cur ∨ deliverAll better cur (path seen x) = x := by
  induction x with
  | nil => exact .inl rfl
  | cons a below ih =>
    unfold path
    split_ifs with hmem
    · exact .inl rfl
    · rw [deliverAll_append]
      rcases ih fun h => hover (h.trans (List.suffix_cons a below)) with heq | heq
      · rw [heq]
        exact (deliver_cases better cur (a :: below)).symm.imp_left And.left
      · rw [heq]
        exact .inr (if_pos rfl)

theorem deliverAll_path_of_better (hover : ¬cur <:+ x) (hx : ¬Known seen x) (hbetter : better x cur) :
    deliverAll better cur (path seen x) = x := by
  cases x with
  | nil => exact absurd (.inl rfl) hx
  | cons a below =>
    rw [path, if_neg fun hmem => hx (.inr hmem), deliverAll_append]
    rcases deliverAll_path better seen
      fun h => hover (h.trans (List.suffix_cons a below)) with heq | heq
    · rw [heq, deliverAll, List.foldl_cons, List.foldl_nil, deliver, hbetter, if_pos rfl, ite_self]
    · rw [heq]
      exact if_pos rfl

/-- If all orders end on one branch, it is a winner: another one that is better could be delivered after it. -/
theorem exists_winner_of_converges (hc : Closed T) (hroot : [] ∉ T)
    (htotal : ∀ x y, Known T x → Known T y → ¬x <:+ y → ¬y <:+ x → better x y = false → better y x)
    (h : ∀ order order', Orders T order → Orders T order' → deliverAll better [] order = deliverAll better [] order') :
    ∃ w, Winner better T w := by
  have hfirst := orders_paths hc hroot [] fun x hx => absurd hx List.not_mem_nil
  have hcur := hfirst.current better hc
  generalize hw : deliverAll better [] (paths [] ([] ++ T)) = w at hcur
  refine ⟨w, hcur.known, fun y hy => ?_⟩
  by_cases hunder : y <:+ w
  · exact .inl hunder
  have hover : ¬w <:+ y := fun hsuffix =>
    hunder (hcur.leaf.eq_of_suffix hc hy hsuffix ▸ List.suffix_rfl)
  have hlose : better y w = false := by
    by_contra hbetter
    -- first the way to `w`, then the way to `y`
    have horder := orders_paths hc hroot [w, y] (by simp [hcur.known, hy])
    have hsame := (h _ _ hfirst horder).symm.trans hw
    have hfresh : ¬Known ((path [] w).reverse ++ []) y := by
      rintro (rfl | hmem)
      · exact hunder (List.nil_suffix)
      · rw [List.append_nil, List.mem_reverse] at hmem
        exact hunder (mem_path hmem).1
    rw [List.cons_append, paths, deliverAll_append, deliverAll_path_root, List.cons_append, paths, deliverAll_append,
      deliverAll_path_of_better hover hfresh (Bool.eq_true_of_not_eq_false hbetter)] at hsame
    rcases deliverAll_mem better y (paths _ ([] ++ T)) with heq | hmem
    · rw [hsame] at heq
      exact hunder (heq ▸ List.suffix_rfl)
    · rw [hsame] at hmem
      obtain ⟨-, -, -, hnew, hne⟩ := mem_paths hmem
      exact hnew (List.mem_append_right _ ((known_path [] w).resolve_left hne))
  exact .inr ⟨hover, htotal y w hy hcur.known hunder hover hlose, hlose⟩

theorem converges_iff_winner (hc : Closed T) (hroot : [] ∉ T)
    (htotal : ∀ x y, Known T x → Known T y → ¬x <:+ y → ¬y <:+ x → better x y = false → better y x) :
    (∀ order order', Orders T order → Orders T order' → deliverAll better [] order = deliverAll better [] order') ↔
      ∃ w, Winner better T w := by
  refine ⟨exists_winner_of_converges hc hroot htotal, ?_⟩
  rintro ⟨w, hw⟩ order order' ho ho'
  rw [hw.deliverAll_eq ho, hw.deliverAll_eq ho']

end

section

variable [DecidableEq α] {f : List α → ℕ}

theorem exists_leaf_above (hy : Known T y) : ∃ l, Known T l ∧ Leaf T l ∧ y <:+ l := by
  have hne : (([] :: T).toFinset.filter (y <:+ ·)).Nonempty := by
    refine ⟨y, ?_⟩
    simpa [Known] using hy
  obtain ⟨l, hl, hmax⟩ := Finset.exists_max_image _ List.length hne
  simp only [Finset.mem_filter, List.mem_toFinset, List.mem_cons] at hl hmax
  refine ⟨l, hl.1, fun a ha => ?_, hl.2⟩
  have hlen := hmax (a :: l) ⟨.inr ha, hl.2.trans (List.suffix_cons a l)⟩
  rw [List.length_cons] at hlen
  omega

omit [DecidableEq α] in
theorem le_of_suffix (hmono : ∀ a below, f below ≤ f (a :: below)) (h : x <:+ y) : f x ≤ f y := by
  induction y with
  | nil => rw [List.suffix_nil.mp h]
  | cons a y ih =>
    rcases List.suffix_cons_iff.mp h with rfl | h
    · exact le_rfl
    · exact (ih h).trans (hmono a y)

theorem exists_winner_of_measure (hmono : ∀ a below, f below ≤ f (a :: below))
    (huniq : ∀ x y, Known T x → Known T y → Leaf T x → Leaf T y → f x = f y → x = y) :
    ∃ w, Winner (fun x y => decide (f y < f x)) T w ∧ Leaf T w ∧ ∀ y, Known T y → f y ≤ f w := by
  obtain ⟨top, htop, hmax⟩ := Finset.exists_max_image ([] :: T).toFinset f ⟨[], by simp⟩
  simp only [List.mem_toFinset, List.mem_cons] at htop hmax
  obtain ⟨w, hw, hleaf, habove⟩ := exists_leaf_above htop
  have hgreatest : ∀ y, Known T y → f y ≤ f w := fun y hy => (hmax y hy).trans (le_of_suffix hmono habove)
  refine ⟨w, ⟨hw, fun y hy => ?_⟩, hleaf, hgreatest⟩
  by_cases hunder : y <:+ w
  · exact .inl hunder
  obtain ⟨l, hl, hl', hyl⟩ := exists_leaf_above hy
  have hlt : f y < f w := by
    refine lt_of_le_of_ne (hgreatest y hy) fun heq => ?_
    -- the leaf above `y` would measure as much as `w`
    have hle := le_of_suffix hmono hyl
    have hge := hgreatest l hl
    obtain rfl := huniq l w hl hw hl' hleaf (by omega)
    exact hunder hyl
  refine .inr ⟨fun hover => ?_, decide_eq_true hlt, decide_eq_false hlt.asymm⟩
  exact absurd (le_of_suffix hmono hover) (not_le.mpr hlt)

end

end Delivery
