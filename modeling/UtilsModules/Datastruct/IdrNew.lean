import UtilsModules.Datastruct.IdrSteps

/-!
`idr_get_new` gives the least number that is free.
-/

namespace UtilsModules.Datastruct

variable {Address : Type}

/-! ## Digits of a number -/

theorem shift_eq (id l : Nat) : id >>> (idrBits * l) = id / 64 ^ l := by
  rw [Nat.shiftRight_eq_div_pow, idrBits, Nat.pow_mul]

theorem mask_eq (id : Nat) : id &&& idrMask = id % 64 :=
  Nat.and_two_pow_sub_one_eq_mod id 6

theorem shiftLeft_eq (id l : Nat) : id <<< (idrBits * l) = id * 64 ^ l := by
  rw [Nat.shiftLeft_eq, idrBits, Nat.pow_mul]

theorem shiftedOne_eq {l : Nat} (small : l ≤ 5) : shiftedOne (idrBits * l) = some (64 ^ l) := by
  rw [shiftedOne, if_pos (by unfold idrBits; omega), idrBits, Nat.pow_mul]

theorem xor_digit {q n m : Nat} (small : n < 64) (other : m < 64) :
    (64 * q + n) ^^^ n ^^^ m = 64 * q + m := by
  apply Nat.eq_of_testBit_eq
  intro bit
  rw [Nat.testBit_xor, Nat.testBit_xor, show 64 = 2 ^ 6 from rfl,
    Nat.testBit_two_pow_mul_add _ small, Nat.testBit_two_pow_mul_add _ other]
  split
  · simp
  · next high =>
      have large : 64 ≤ 2 ^ bit := Nat.pow_le_pow_right (n := 2) (by decide) (Nat.le_of_not_lt high)
      simp [Nat.testBit_lt_two_pow (Nat.lt_of_lt_of_le small large),
        Nat.testBit_lt_two_pow (Nat.lt_of_lt_of_le other large)]

theorem IdrTree.Shaped.number_lt {tree : IdrTree Address} {layers l q m : Nat} {p : Address}
    (shaped : tree.Shaped layers) (here : tree.node l q = some p) (small : m < 64) :
    (64 * q + m + 1) * 64 ^ l ≤ 64 ^ layers := by
  have inside := shaped.node_lt here
  have below := @IdrTree.Shaped.position_lt _ tree layers (l + 1) q shaped
    (by rw [IdrTree.isSome_entry_succ, here]; rfl)
  calc (64 * q + m + 1) * 64 ^ l ≤ (64 * 64 ^ (layers - (l + 1))) * 64 ^ l :=
        Nat.mul_le_mul_right _ (by omega)
    _ = 64 ^ layers := by
        rw [← Nat.pow_succ', ← Nat.pow_add]
        congr 1
        omega

/-! ## The search -/

/-- `pa` holds the layers above, on the way to a number. -/
structure IdrPath.Leads (pa : IdrPath Address) (node : Nat → Nat → Option Address)
    (layers id l : Nat) : Prop where
  length : pa.length = maxLevel
  top : pa.read layers = some none
  stack : ∀ height, l < height → height < layers →
    ∃ a, node height (id / 64 ^ (height + 1)) = some a ∧ pa.read height = some (some a)

theorem IdrPath.drop_of_read {pa : IdrPath Address} {l : Nat} {value : Option Address}
    (there : pa.read l = some value) : pa.drop l = some value :: pa.drop (l + 1) := by
  obtain ⟨inside, equal⟩ := List.getElem?_eq_some_iff.mp (Option.join_eq_some_iff.mp there)
  rw [List.drop_eq_getElem_cons inside, equal]

/-- The search stands at the slot of a layer, and everything before it is taken. -/
structure Idr.Searching (idp : Idr Address) (node : Nat → Nat → Option Address)
    (value : Nat → Option (Option Address)) (free : List Address) (p : Address) (l pos : Nat)
    (pa : IdrPath Address) : Prop where
  sound : idp.Sound node value free
  here : node l (pos / 64) = some p
  before : ∀ id < pos * 64 ^ l, Present value id
  leads : pa.Leads node idp.layers (pos * 64 ^ l) l

namespace Idr.Searching

variable {idp : Idr Address} {node : Nat → Nat → Option Address}
  {value : Nat → Option (Option Address)} {free : List Address} {p : Address} {l pos : Nat}
  {pa : IdrPath Address} {layer : IdrLayer Address}

theorem bit_iff (searching : idp.Searching node value free p l pos pa)
    (stored : idp.memory p = some layer) {m : Nat} (small : m < 64) :
    layer.bitmap.getLsbD m = true ↔ Radix.Full 64 (Present value) l (64 * (pos / 64) + m) := by
  obtain ⟨other, otherStored, shown⟩ := searching.sound.shows l (pos / 64) p searching.here
  obtain rfl := Option.some.inj (stored.symm.trans otherStored)
  exact shown.bitmap m small

theorem next_slot (searching : idp.Searching node value free p l pos pa)
    (stored : idp.memory p = some layer)
    (missing : ¬ Radix.Full 64 (Present value) (l + 1) (pos / 64)) :
    ∃ m < 64, findNextBit (~~~layer.bitmap) (pos % 64) = m ∧
      ¬ Radix.Full 64 (Present value) l (64 * (pos / 64) + m) ∧
        ∀ id < (64 * (pos / 64) + m) * 64 ^ l, Present value id := by
  have unset {m : Nat} (small : m < 64) : (~~~layer.bitmap).getLsbD m = false ↔
      Radix.Full 64 (Present value) l (64 * (pos / 64) + m) := by
    rw [BitVec.getLsbD_not, ← searching.bit_iff stored small]
    simp [small]
  have split := Radix.position_eq pos 64
  have early (m : Nat) (below : m < pos % 64) :
      Radix.Full 64 (Present value) l (64 * (pos / 64) + m) := by
    refine @Radix.full_of_before 64 l _ _ (by decide) fun id inside => ?_
    exact searching.before id (Nat.lt_of_lt_of_le inside (Nat.mul_le_mul_right _ (by omega)))
  rcases findNextBit_cases (~~~layer.bitmap) (pos % 64) with ⟨-, all⟩ | ⟨small, after, set, all⟩
  · refine absurd ((Radix.full_succ (by decide)).mpr fun m small => ?_) missing
    by_cases below : m < pos % 64
    · exact early m below
    · exact (unset small).mp (all m (by omega) small)
  · refine ⟨_, small, rfl, ?_, ?_⟩
    · rw [← unset small, set]
      decide
    · apply @Radix.before_of_full 64 l _ pos _ (by decide) searching.before
      intro other from_ below
      have full := (unset (m := other - 64 * (pos / 64)) (by unfold idrSize at small; omega)).mp
        (all _ (by omega) (by omega))
      rwa [Nat.add_sub_cancel' (by omega)] at full

end Idr.Searching

variable [DecidableEq Address]

theorem Idr.Sound.layerBelow_spec {idp : Idr Address} {node : Nat → Nat → Option Address}
    {value : Nat → Option (Option Address)} {free : List Address} {p : Address} {l pos : Nat}
    (sound : idp.Sound node value free) (parent : node (l + 1) (pos / 64) = some p) :
    (free = [] ∧ layerBelow idp p (pos % 64) = some (idp, none)) ∨
      ∃ after a placed rest, layerBelow idp p (pos % 64) = some (after, some a) ∧
        after.top = idp.top ∧ after.layers = idp.layers ∧ after.Sound placed value rest ∧
          placed l pos = some a ∧ free.length ≤ rest.length + 1 ∧
            ∀ height other, (node height other).isSome →
              placed height other = node height other := by
  obtain ⟨layer, stored, shown⟩ := sound.shows (l + 1) (pos / 64) p parent
  have digit : pos % 64 < 64 := Nat.mod_lt _ (by decide)
  have entry : layer.ary (pos % 64) = node l pos := by
    rw [shown.ary _ digit, Radix.position_eq]
    exact IdrTree.join_entry_succ
  cases below : node l pos with
  | some a =>
      right
      refine ⟨idp, a, node, free, ?_, rfl, rfl, sound, below, Nat.le_succ _, fun _ _ _ => rfl⟩
      simp only [layerBelow, stored, entry, below, Option.bind_eq_bind, Option.bind_some]
  | none =>
      cases free with
      | nil =>
          left
          refine ⟨rfl, ?_⟩
          simp only [layerBelow, stored, entry, below, sound.unused.alloc_nil, Option.bind_eq_bind,
            Option.bind_some]
      | cons a rest =>
          right
          obtain ⟨after, allocated, laid, sameTop, sameLayers, memory⟩ := sound.alloc
          have apart : p ≠ a := by
            rintro rfl
            exact sound.apart p (.inl List.mem_cons_self) _ _ parent
          have storedAfter : after.memory p = some layer := by
            rw [memory, Function.update_of_ne apart]
            exact stored
          have linked := laid.link parent below (fun m small full => ?_) rfl storedAfter
          · refine ⟨after.withLayer p
                { layer.setAry (pos % 64) (some a) with count := layer.count + 1 }, a,
              ((IdrTree.between node value).place l pos (some a)).node, rest, ?_, sameTop,
              sameLayers, linked, ?_, Nat.le_refl _, ?_⟩
            · simp only [layerBelow, stored, entry, below, allocated, Idr.assign_eq storedAfter,
                Option.bind_eq_bind, Option.bind_some]
            · rw [IdrTree.node_place, if_pos ⟨rfl, rfl⟩]
            · intro height other present
              rw [IdrTree.node_place, if_neg]
              · rfl
              · rintro ⟨rfl, rfl⟩
                rw [below] at present
                cases present
          · have present := full ((64 * pos + m) * 64 ^ l) (Radix.first_div (by decide))
            obtain ⟨other, there⟩ := @IdrTree.Shaped.node_of_present _ _ _ l sound.shaped _ present
              (Nat.lt_of_succ_lt (sound.shaped.node_lt parent))
            rw [Radix.div_pow_succ, Radix.first_div (by decide), Radix.child_div small] at there
            cases there.symm.trans below

namespace Idr.Searching

variable {idp : Idr Address} {node : Nat → Nat → Option Address}
  {value : Nat → Option (Option Address)} {free : List Address} {p : Address} {l pos m : Nat}
  {pa : IdrPath Address} {layer : IdrLayer Address}

theorem round_eq (searching : idp.Searching node value free p l pos pa)
    (stored : idp.memory p = some layer) (small : m < 64)
    (found : findNextBit (~~~layer.bitmap) (pos % 64) = m) (rounds : Nat) :
    subAllocSearch (rounds + 1) idp p l (pos * 64 ^ l) pa =
      if l = 0 then some (idp, .leaf p m ((64 * (pos / 64) + m) * 64 ^ l) pa)
      else (layerBelow idp p m).bind fun
        | (idp, none) => some (idp, .noLayer)
        | (idp, some below) => (pa.write l (some p)).bind fun pa =>
            subAllocSearch rounds idp below (l - 1) ((64 * (pos / 64) + m) * 64 ^ l) pa := by
  have positive : 0 < 64 := by decide
  have split := Radix.position_eq pos 64
  have notSize : m ≠ idrSize := by
    unfold idrSize
    omega
  have digit : (pos * 64 ^ l) >>> (idrBits * l) &&& idrMask = pos % 64 := by
    rw [shift_eq, Radix.first_div positive, mask_eq]
  have nextId : (if m ≠ pos % 64 then
      ((pos * 64 ^ l) >>> (idrBits * l) ^^^ pos % 64 ^^^ m) <<< (idrBits * l)
      else pos * 64 ^ l) = (64 * (pos / 64) + m) * 64 ^ l := by
    rw [shift_eq, Radix.first_div positive, shiftLeft_eq]
    split
    · conv_lhs => rw [← split, Nat.mul_add_mod, Nat.mod_mod]
      rw [xor_digit (Nat.mod_lt _ positive) small]
    · next same => rw [not_ne_iff.mp same, split]
  have bound : ¬ maxIdBit ≤ (64 * (pos / 64) + m) * 64 ^ l := by
    have inside := searching.sound.shaped.number_lt searching.here small
    have high := Nat.pow_le_pow_right positive searching.sound.small
    rw [Nat.add_mul, Nat.one_mul] at inside
    have := Nat.pow_pos (n := l) positive
    unfold maxIdBit
    omega
  simp only [subAllocSearch, stored, digit, found, Option.bind_eq_bind, Option.bind_some]
  refine (if_neg notSize).trans ?_
  rw [nextId]
  exact if_neg bound

omit [DecidableEq Address] in
theorem below {after : Idr Address} {a : Address} {placed : Nat → Nat → Option Address}
    {rest : List Address} (searching : idp.Searching node value free p (l + 1) pos pa)
    (small : m < 64) (sameLayers : after.layers = idp.layers)
    (sound : after.Sound placed value rest)
    (here : placed l (64 * (pos / 64) + m) = some a)
    (same : ∀ height other, (node height other).isSome → placed height other = node height other)
    (before : ∀ id < (64 * (pos / 64) + m) * 64 ^ (l + 1), Present value id) :
    ∃ way, pa.write (l + 1) (some p) = some way ∧
      after.Searching placed value rest a l (64 * (64 * (pos / 64) + m)) way := by
  have inside := searching.sound.shaped.node_lt searching.here
  have few := searching.sound.small
  have length := searching.leads.length
  have next := Radix.first_child 64 (64 * (pos / 64) + m) l
  refine ⟨pa.set (l + 1) (some (some p)), if_pos (by rw [length]; unfold maxLevel; omega), sound,
    ?_, ?_, ?_, ?_, ?_⟩
  · rw [Nat.mul_div_cancel_left _ (by decide)]
    exact here
  · rwa [next]
  · rw [List.length_set, length]
  · rw [sameLayers, IdrPath.read, List.getElem?_set_ne (by omega)]
    exact searching.leads.top
  · intro height above below
    rw [next]
    rcases Nat.eq_or_lt_of_le above with rfl | higher
    · refine ⟨p, ?_, ?_⟩
      · rw [Radix.div_pow_succ, Radix.first_div (by decide), Radix.child_div small,
          same _ _ (by rw [searching.here]; rfl)]
        exact searching.here
      · rw [IdrPath.read, List.getElem?_set_self (by rw [length]; unfold maxLevel; omega)]
        rfl
    · obtain ⟨other, there, read⟩ := searching.leads.stack height higher (sameLayers ▸ below)
      refine ⟨other, ?_, ?_⟩
      · have together : (64 * (pos / 64) + m) * 64 ^ (l + 1) / 64 ^ (height + 1) =
            pos * 64 ^ (l + 1) / 64 ^ (height + 1) := by
          refine Radix.div_eq_of_le ?_ (show l + 1 + 1 ≤ height + 1 by omega)
          rw [Radix.div_pow_succ _ _ (l + 1), Radix.div_pow_succ _ _ (l + 1),
            Radix.first_div (by decide), Radix.first_div (by decide), Radix.child_div small]
        rw [together, same _ _ (by rw [there]; rfl)]
        exact there
      · rw [IdrPath.read, List.getElem?_set_ne (by omega)]
        exact read

/-- The search ends at the first number that is free, or runs out of free layers. -/
theorem spec (searching : idp.Searching node value free p l pos pa)
    (missing : ¬ Radix.Full 64 (Present value) (l + 1) (pos / 64)) {rounds : Nat}
    (enough : l < rounds) :
    ∃ after answer, subAllocSearch rounds idp p l (pos * 64 ^ l) pa = some (after, answer) ∧
      after.top = idp.top ∧ after.layers = idp.layers ∧
        ((answer = .noLayer ∧ free.length < l ∧ ∃ placed, after.Sound placed value []) ∨
          ∃ leaf id way placed rest, answer = .leaf leaf (id % 64) id way ∧
            after.Searching placed value rest leaf 0 id way ∧ ¬ Present value id ∧
              free.length ≤ rest.length + l) := by
  induction l generalizing idp node free p pos pa rounds with
  | zero =>
      obtain ⟨rounds, rfl⟩ : ∃ fewer, rounds = fewer + 1 := ⟨rounds - 1, by omega⟩
      obtain ⟨layer, stored, -⟩ := searching.sound.shows _ _ _ searching.here
      obtain ⟨m, small, found, notFull, before⟩ := searching.next_slot stored missing
      rw [searching.round_eq stored small found, if_pos rfl]
      refine ⟨idp, _, rfl, rfl, rfl, .inr ⟨p, 64 * (pos / 64) + m, pa, node, free, ?_, ?_, ?_,
        Nat.le_refl _⟩⟩
      · rw [Radix.child_mod small, Nat.pow_zero, Nat.mul_one]
      · refine ⟨searching.sound, ?_, before, searching.leads.length, searching.leads.top, ?_⟩
        · rw [Radix.child_div small]
          exact searching.here
        · intro height above below
          obtain ⟨a, there, read⟩ := searching.leads.stack height above below
          refine ⟨a, ?_, read⟩
          rw [Nat.pow_succ', ← Nat.div_div_eq_div_mul] at there ⊢
          rw [Nat.pow_zero, Nat.mul_one] at there ⊢
          rw [Radix.child_div small]
          exact there
      · exact fun present => notFull (Radix.full_zero.mpr present)
  | succ l inductionHypothesis =>
      obtain ⟨rounds, rfl⟩ : ∃ fewer, rounds = fewer + 1 := ⟨rounds - 1, by omega⟩
      obtain ⟨layer, stored, -⟩ := searching.sound.shows _ _ _ searching.here
      obtain ⟨m, small, found, notFull, before⟩ := searching.next_slot stored missing
      have parent : node (l + 1) ((64 * (pos / 64) + m) / 64) = some p := by
        rw [Radix.child_div small]
        exact searching.here
      rw [searching.round_eq stored small found, if_neg (Nat.succ_ne_zero l)]
      rcases searching.sound.layerBelow_spec parent with ⟨rfl, none⟩ |
        ⟨after, a, placed, rest, created, top, layers, sound, here, used, same⟩
      · rw [Radix.child_mod small] at none
        refine ⟨idp, .noLayer, by rw [none]; rfl, rfl, rfl, .inl ⟨rfl, Nat.succ_pos l, node, ?_⟩⟩
        exact searching.sound
      · rw [Radix.child_mod small] at created
        obtain ⟨way, written, lower⟩ := searching.below small layers sound here same before
        have next := Radix.first_child 64 (64 * (pos / 64) + m) l
        obtain ⟨last, answer, ran, lastTop, lastLayers, found⟩ := inductionHypothesis lower
          (by rwa [Nat.mul_div_cancel_left _ (by decide)]) (Nat.lt_of_succ_lt_succ enough)
        rw [next] at ran
        refine ⟨last, answer, ?_, lastTop.trans top, lastLayers.trans layers, ?_⟩
        · simp only [created, written, Option.bind_some]
          exact ran
        · rcases found with ⟨rfl, short, last⟩ |
            ⟨leaf, id, way, placed, rest, rfl, at_, absent, left⟩
          · exact .inl ⟨rfl, by omega, last⟩
          · exact .inr ⟨leaf, id, way, placed, rest, rfl, at_, absent, by omega⟩

end Idr.Searching

/-! ## The pointer is stored and full layers are marked -/

/-- The number has been stored; the entries up to a height are marked if they have
become full. -/
def IdrTree.filling (node : Nat → Nat → Option Address) (value : Nat → Option (Option Address))
    (id : Nat) (ptr : Option Address) (l : Nat) : IdrTree Address where
  node := node
  value := Function.update value id (some ptr)
  marked h pos :=
    if h ≤ l then Radix.Full 64 (Present (Function.update value id (some ptr))) h pos
    else Radix.Full 64 (Present value) h pos
  excess _ _ := 0

section Marking

variable {idp : Idr Address} {node : Nat → Nat → Option Address}
  {value : Nat → Option (Option Address)} {free : List Address} {p : Address} {id l pos : Nat}
  {ptr : Option Address} {pa : IdrPath Address}

omit [DecidableEq Address] in
theorem present_update {other : Nat} {stored : Option (Option Address)} (different : other ≠ id) :
    Present (Function.update value id stored) other ↔ Present value other := by
  rw [Present, Function.update_of_ne different, Present]

omit [DecidableEq Address] in
theorem full_update {stored : Option (Option Address)} (apart : pos ≠ id / 64 ^ l) :
    Radix.Full 64 (Present (Function.update value id stored)) l pos ↔
      Radix.Full 64 (Present value) l pos :=
  Radix.full_congr (fun _ different => present_update different) apart

theorem Idr.Searching.plant {layer : IdrLayer Address}
    (searching : idp.Searching node value free p 0 id pa) (ptr : Option Address) (absent : ¬ Present value id)
    (stored : idp.memory p = some layer) :
    (idp.withLayer p { (layer.setAry (id % 64) ptr).setBit (id % 64) with
      count := layer.count + 1 }).Laid (.filling node value id ptr 0) free [] := by
  obtain ⟨other, otherStored, shown⟩ := searching.sound.shows _ _ _ searching.here
  obtain rfl := Option.some.inj (stored.symm.trans otherStored)
  have split := Radix.position_eq id 64
  have digit : id % 64 < 64 := Nat.mod_lt _ (by decide)
  have fullZero (m : Nat) : (IdrTree.filling node value id ptr 0).marked 0 m ↔
      Present (Function.update value id (some ptr)) m := by
    simp only [IdrTree.filling, Nat.le_refl, if_true, Radix.full_zero]
  have shaped : (IdrTree.filling node value id ptr 0).Shaped idp.layers := by
    refine ⟨?_, searching.sound.shaped.grown, searching.sound.shaped.distinct⟩
    intro h pos occupied
    cases h with
    | zero =>
        by_cases same : pos = id
        · subst same
          refine .inl ⟨Nat.zero_lt_of_lt (searching.sound.shaped.node_lt searching.here), ?_⟩
          change (node 0 (pos / 64)).isSome
          rw [searching.here]
          rfl
        · exact searching.sound.shaped.above 0 pos ((present_update same).mp occupied)
    | succ h => exact searching.sound.shaped.above (h + 1) pos occupied
  refine Idr.Laid.assign searching.sound searching.here rfl shaped ?_ ?_
  · intro height pos _ elsewhere
    refine ⟨fun m small => ?_, rfl⟩
    cases height with
    | succ height => exact ⟨rfl, Iff.rfl⟩
    | zero =>
        have different : 64 * pos + m ≠ id := by
          intro same
          apply elsewhere
          rw [← same, Radix.child_div small]
          exact ⟨rfl, rfl⟩
        refine ⟨Function.update_of_ne different .., ?_⟩
        rw [fullZero, present_update different]
        exact Radix.full_zero.symm
  · have filled := (@IdrLayer.Shows.put _ layer _
      (fun m => (IdrTree.filling node value id ptr 0).entry 0 (64 * (id / 64) + m)) _ _ (id % 64)
      ptr shown digit ?_ ?_ ?_).setBit (id % 64)
        (fun m => (IdrTree.filling node value id ptr 0).marked 0 (64 * (id / 64) + m)) ?_
    · exact filled
    · rw [split]
      exact Option.not_isSome_iff_eq_none.mp absent
    · rw [split]
      exact Function.update_self ..
    · intro m small different
      exact Function.update_of_ne (by omega) ..
    · intro m small
      rw [fullZero]
      by_cases same : m = id % 64
      · rw [same, split]
        refine iff_of_true ?_ (.inr rfl)
        rw [Present, Function.update_self]
        rfl
      · rw [present_update (by omega), or_iff_left same]
        exact Radix.full_zero.symm

theorem Idr.Laid.markOne {layer : IdrLayer Address}
    (laid : idp.Laid (.filling node value id ptr l) free [])
    (here : node (l + 1) (id / 64 ^ (l + 1 + 1)) = some p)
    (shown : layer.Shows
      (fun m => (IdrTree.filling node value id ptr l).entry (l + 1)
        (64 * (id / 64 ^ (l + 1 + 1)) + m))
      (fun m => (IdrTree.filling node value id ptr l).marked (l + 1)
        (64 * (id / 64 ^ (l + 1 + 1)) + m)) 0)
    (full : Radix.Full 64 (Present (Function.update value id (some ptr))) (l + 1)
      (id / 64 ^ (l + 1))) :
    (idp.withLayer p (layer.setBit (id / 64 ^ (l + 1) % 64))).Laid
      (.filling node value id ptr (l + 1)) free [] := by
  have split := Radix.position_eq (id / 64 ^ (l + 1)) 64
  rw [← Radix.div_pow_succ] at split
  have shaped : (IdrTree.filling node value id ptr (l + 1)).Shaped idp.layers := by
    refine ⟨?_, laid.shaped.grown, laid.shaped.distinct⟩
    intro h pos occupied
    cases h with
    | zero => exact laid.shaped.above 0 pos occupied
    | succ h => exact laid.shaped.above (h + 1) pos occupied
  refine laid.assign here rfl shaped ?_ ?_
  · intro height pos _ elsewhere
    refine ⟨fun m small => ⟨?_, ?_⟩, rfl⟩
    · cases height with
      | zero => rfl
      | succ height => rfl
    · simp only [IdrTree.filling]
      by_cases low : height ≤ l
      · rw [if_pos low, if_pos (by omega)]
      · rw [if_neg low]
        split
        · obtain rfl : height = l + 1 := by omega
          apply full_update
          intro same
          apply elsewhere
          rw [Radix.div_pow_succ, ← same, Radix.child_div small]
          exact ⟨rfl, rfl⟩
        · exact Iff.rfl
  · refine shown.setBit _ _ fun m small => ?_
    simp only [IdrTree.filling, Nat.le_refl, if_true, show ¬ l + 1 ≤ l by omega, if_false]
    by_cases same : m = id / 64 ^ (l + 1) % 64
    · rw [same, split]
      exact iff_of_true full (.inr rfl)
    · rw [or_iff_left same]
      exact full_update (by omega)

theorem markFull_spec (laid : idp.Laid (.filling node value id ptr l) free [])
    (here : node l (id / 64 ^ (l + 1)) = some p) (leads : pa.Leads node idp.layers id l)
    (absent : ¬ Present value id) :
    ∃ after, markFull idp p (id / 64 ^ l) (pa.drop (l + 1)) = some after ∧
      after.top = idp.top ∧ after.layers = idp.layers ∧
        after.Sound node (Function.update value id (some ptr)) free := by
  induction left : idp.layers - l generalizing idp l p with
  | zero =>
      have := laid.shaped.node_lt here
      omega
  | succ fewer inductionHypothesis =>
      obtain ⟨layer, stored, shown⟩ := laid.shows _ _ _ here
      have inside := laid.shaped.node_lt here
      have few := laid.small
      have length := leads.length
      have isFull : layer.bitmap = idrFull ↔
          Radix.Full 64 (Present (Function.update value id (some ptr))) (l + 1)
            (id / 64 ^ (l + 1)) := by
        rw [IdrLayer.bitmap_full_iff, Radix.full_succ (by decide)]
        refine forall₂_congr fun m small => (shown.bitmap m small).trans ?_
        simp only [IdrTree.filling, Nat.le_refl, if_true]
      by_cases full : layer.bitmap = idrFull
      · have fullAfter := isFull.mp full
        by_cases top : l + 1 = idp.layers
        · have ends := IdrPath.drop_of_read (top ▸ leads.top)
          refine ⟨idp, ?_, rfl, rfl, ?_⟩
          · unfold markFull
            simp only [stored, ends, Option.bind_eq_bind, Option.bind_some, if_pos full]
          · refine laid.congr_marked fun h pos below => ?_
            simp only [IdrTree.filling, show h ≤ l by omega, if_true]
        · obtain ⟨above, there, onPath⟩ := leads.stack (l + 1) (Nat.lt_succ_self l) (by omega)
          obtain ⟨upper, upperStored, upperShown⟩ := laid.shows _ _ _ there
          have next := IdrPath.drop_of_read onPath
          have marked := laid.markOne there upperShown fullAfter
          obtain ⟨after, ran, sameTop, sameLayers, sound⟩ := inductionHypothesis marked there
            ⟨length, leads.top, fun height higher => leads.stack height (by omega)⟩
            (show idp.layers - (l + 1) = fewer by omega)
          refine ⟨after, ?_, sameTop, sameLayers, sound⟩
          unfold markFull
          simp only [stored, next, Option.bind_eq_bind, Option.bind_some, if_pos full,
            Idr.assign_eq upperStored, Nat.shiftRight_eq_div_pow, idrBits, mask_eq]
          rw [show 2 ^ 6 = 64 from rfl, ← Radix.div_pow_succ, ran]
      · refine ⟨idp, ?_, rfl, rfl, ?_⟩
        · unfold markFull
          simp only [stored, Option.bind_eq_bind, Option.bind_some, if_neg full]
        · refine laid.congr_marked fun h pos _ => ?_
          simp only [IdrTree.filling]
          split
          · exact Iff.rfl
          · next high =>
              by_cases above : pos = id / 64 ^ h
              · obtain ⟨missing, together, absentToo⟩ : ∃ missing,
                    missing / 64 ^ (l + 1) = id / 64 ^ (l + 1) ∧
                      ¬ Present (Function.update value id (some ptr)) missing := by
                  have := mt isFull.mpr full
                  simpa [Radix.Full] using this
                have same := Radix.div_eq_of_le together (show l + 1 ≤ h by omega)
                subst above
                refine iff_of_false ?_ (Radix.not_full absent h)
                rw [← same]
                exact Radix.not_full absentToo h
              · exact full_update above

end Marking

/-! ## The calls -/

namespace Idr.Sound

variable {idp : Idr Address} {node : Nat → Nat → Option Address}
  {value : Nat → Option (Option Address)} {free : List Address} {l rounds : Nat}

theorem searching (sound : idp.Sound node value free) (digit : Nat) (layers : idp.layers = l + 1)
    (small : digit < 64) (before : ∀ id < digit * 64 ^ l, Present value id) :
    ∃ p pa, idp.top = some p ∧
      IdrPath.write (List.replicate maxLevel none) idp.layers none = some pa ∧
        idp.Searching node value free p l digit pa := by
  have few := sound.small
  obtain ⟨p, here⟩ := Option.isSome_iff_exists.mp (sound.shaped.grown (by omega))
  have first : idp.layers - 1 = l := by omega
  rw [first] at here
  have inside : idp.layers < (List.replicate maxLevel (none : Option (Option Address))).length := by
    rw [List.length_replicate]
    unfold maxLevel
    omega
  refine ⟨p, _, ?_, if_pos inside, sound, ?_, before, ?_, ?_, ?_⟩
  · rw [sound.rooted, layers]
    exact here
  · rw [Nat.div_eq_of_lt small]
    exact here
  · rw [List.length_set, List.length_replicate]
  · rw [IdrPath.read, List.getElem?_set_self inside]
    rfl
  · intro height above below
    omega

theorem subAlloc_spec (sound : idp.Sound node value free) (digit : Nat)
    (layers : idp.layers = l + 1) (small : digit < 64) (before : ∀ id < digit * 64 ^ l, Present value id)
    (missing : ¬ Radix.Full 64 (Present value) (l + 1) 0) (enough : 5 ≤ rounds)
    (ptr : Option Address) :
    ∃ after answer, subAlloc rounds idp ptr (digit * 64 ^ l) = some (after, .inr answer) ∧
      ((answer = .error .eagain ∧ free.length < 5 ∧ ∃ placed, after.Sound placed value []) ∨
        ∃ id placed rest, answer = .ok id ∧ ¬ Present value id ∧
          (∀ other < id, Present value other) ∧
            after.Sound placed (Function.update value id (some ptr)) rest) := by
  have few := sound.small
  obtain ⟨p, pa, top, written, searching⟩ := sound.searching digit layers small before
  obtain ⟨after, answer, ran, -, sameLayers, found⟩ := searching.spec
    (by rwa [Nat.div_eq_of_lt small]) (show l < rounds by omega)
  have first : idp.layers - 1 = l := by omega
  rcases found with ⟨rfl, short, empty⟩ | ⟨leaf, id, way, placed, rest, rfl, at_, absent, left⟩
  · refine ⟨after, .error .eagain, ?_, .inl ⟨rfl, by omega, empty⟩⟩
    simp only [subAlloc, top, written, first, ran, Option.bind_eq_bind, Option.bind_some]
  · obtain ⟨layer, stored, -⟩ := at_.sound.shows _ _ _ at_.here
    have planted := at_.plant ptr absent stored
    have leads := at_.leads
    rw [Nat.pow_zero, Nat.mul_one] at leads
    obtain ⟨last, marked, -, -, done⟩ := markFull_spec planted
      (by rw [Nat.zero_add, Nat.pow_one]; exact at_.here) leads absent
    rw [Nat.pow_zero, Nat.div_one, Nat.zero_add] at marked
    refine ⟨last, .ok id, ?_, .inr ⟨id, placed, rest, rfl, absent, ?_, done⟩⟩
    · simp only [subAlloc, top, written, first, ran, Option.bind_eq_bind, Option.bind_some,
        Idr.assign_eq stored, marked]
    · intro other below
      exact at_.before other (by rwa [Nat.pow_zero, Nat.mul_one])

theorem subAlloc_full (sound : idp.Sound node value free) (layers : idp.layers = l + 1)
    (full : Radix.Full 64 (Present value) (l + 1) 0) (enough : 5 ≤ rounds) (ptr : Option Address) :
    subAlloc rounds idp ptr 0 = some (idp, .inl (64 ^ (l + 1))) := by
  have few := sound.small
  obtain ⟨p, pa, top, written, searching⟩ := sound.searching 0 layers (by decide)
    (by simp)
  obtain ⟨layer, stored, -⟩ := sound.shows _ _ _ searching.here
  have first : idp.layers - 1 = l := by omega
  have none : findNextBit (~~~layer.bitmap) 0 = idrSize := by
    rcases findNextBit_cases (~~~layer.bitmap) 0 with ⟨none, -⟩ | ⟨small, -, set, -⟩
    · exact none
    · have clear := (searching.bit_iff stored small).mpr
        ((Radix.full_succ (by decide)).mp full _ small)
      rw [BitVec.getLsbD_not, clear] at set
      simp at set
  have ends : pa.read (l + 1) = some Option.none := layers ▸ searching.leads.top
  obtain ⟨rounds, rfl⟩ : ∃ fewer, rounds = fewer + 1 := ⟨rounds - 1, by omega⟩
  have ran : subAllocSearch (rounds + 1) idp p l 0 pa = some (idp, .again (64 ^ (l + 1))) := by
    have positive := Nat.pow_pos (n := l + 1) (show 0 < 64 by decide)
    simp only [subAllocSearch, stored, Nat.zero_shiftRight, Nat.zero_and, none,
      Option.bind_eq_bind, Option.bind_some]
    refine (if_pos trivial).trans ?_
    rw [shiftedOne_eq (by omega), Option.bind_some, ends, Option.bind_some, Nat.zero_or,
      Nat.sub_add_cancel positive]
  simp only [subAlloc, top, written, first, ran, Option.bind_eq_bind, Option.bind_some]

/-- `idr_get_new` has come to an end: the free layers did not suffice, or the least
free number has been given. -/
def GotNew (value : Nat → Option (Option Address)) (free : List Address) (ptr : Option Address)
    (after : Idr Address) (answer : IdrAnswer) : Prop :=
  (answer = .error .eagain ∧ free.length < 6 ∧ ∃ placed, after.Sound placed value []) ∨
    ∃ id placed rest, answer = .ok id ∧ ¬ Present value id ∧
      (∀ other < id, Present value other) ∧
        after.Sound placed (Function.update value id (some ptr)) rest

omit [DecidableEq Address] in
theorem gotNew_of_subAlloc {after : Idr Address} {answer : IdrAnswer} {rest : List Address}
    {ptr : Option Address} (used : free.length ≤ rest.length + 1)
    (found : (answer = .error .eagain ∧ rest.length < 5 ∧ ∃ placed, after.Sound placed value []) ∨
      ∃ id placed rest, answer = .ok id ∧ ¬ Present value id ∧
        (∀ other < id, Present value other) ∧
          after.Sound placed (Function.update value id (some ptr)) rest) :
    GotNew value free ptr after answer :=
  found.imp_left fun ⟨error, short, empty⟩ => ⟨error, by omega, empty⟩

theorem growTop_low {id left layers low : Nat} {p : Address}
    (bound : shiftedOne (layers * idrBits) = some low) (small : id < low) :
    growTop rounds id (left + 1) idp p layers = some (idp, some (p, layers)) := by
  rw [growTop, bound, Option.bind_eq_bind, Option.bind_some, if_pos small]

theorem buildUp_first (sound : idp.Sound node value free) (layers : idp.layers = 0)
    (enough : 5 ≤ rounds) (ptr : Option Address) :
    ∃ after answer, buildUp rounds idp ptr 0 = some (after, .inr answer) ∧
      GotNew value free ptr after answer := by
  have top : idp.top = none := by
    rw [sound.rooted, layers]
    rfl
  have absent (id : Nat) : ¬ Present value id := by
    have shaped := sound.shaped
    rw [layers] at shaped
    exact Option.not_isSome_iff_eq_none.mpr (shaped.none_of_zero (h := 0))
  cases free with
  | nil =>
      refine ⟨idp, .error .eagain, ?_, .inl ⟨rfl, Nat.succ_pos 5, node, sound⟩⟩
      simp only [buildUp, topLayer, top, sound.unused.alloc_nil, Option.bind_eq_bind,
        Option.bind_some]
  | cons a rest =>
      obtain ⟨middle, allocated, laid, sameTop, sameLayers, memory⟩ := sound.alloc
      rw [layers] at sameLayers
      have raised := laid.raise .zero (by omega) (.of_none (fun m _ => ?_) fun m _ => ?_)
      · have same : middle.withLayer a .zero = middle := by
          rw [Idr.withLayer, memory, Function.update_idem, ← memory]
        rw [same, sameLayers] at raised
        obtain ⟨after, answer, ran, found⟩ := @Sound.subAlloc_spec _ _ _
          ((IdrTree.between node value).place 0 0 (some a)).node _ _ 0 _ raised 0 rfl (by decide)
          (by simp) (fun full => absent 0 (full 0 rfl)) enough ptr
        refine ⟨after, answer, ?_, gotNew_of_subAlloc (by simp) found⟩
        rw [Nat.zero_mul] at ran
        have grown : growTop rounds 0 (maxLevel - 1) middle a 1 = some (middle, some (a, 1)) :=
          growTop_low (show shiftedOne (1 * idrBits) = some 64 from rfl) (by decide)
        simp only [buildUp, topLayer, top, allocated, grown, Option.bind_eq_bind, Option.bind_some]
        exact ran
      · rw [sameLayers]
        exact Option.not_isSome_iff_eq_none.mp (absent m)
      · rw [sameLayers]
        exact fun full => absent _ (Radix.full_zero.mp full)

theorem buildUp_space (sound : idp.Sound node value free) (layers : idp.layers = l + 1)
    (ptr : Option Address) :
    buildUp rounds idp ptr 0 = subAlloc rounds idp ptr 0 := by
  have few := sound.small
  obtain ⟨p, pa, top, -, -⟩ := sound.searching 0 layers (by decide) (by simp)
  obtain ⟨left, leftEq⟩ : ∃ left, maxLevel - idp.layers = left + 1 :=
    ⟨maxLevel - idp.layers - 1, by unfold maxLevel; omega⟩
  have low : shiftedOne (idp.layers * idrBits) = some (64 ^ idp.layers) := by
    rw [Nat.mul_comm, shiftedOne_eq few]
  have positive := Nat.pow_pos (n := idp.layers) (show 0 < 64 by decide)
  simp only [buildUp, topLayer, top, leftEq, growTop_low low positive, Option.bind_eq_bind,
    Option.bind_some]
  rw [← top]

omit [DecidableEq Address] in
theorem shows_top {p : Address} (sound : idp.Sound node value free) (layers : idp.layers = l + 1)
    (top : node l 0 = some p) (full : Radix.Full 64 (Present value) (l + 1) 0) :
    (({ (IdrLayer.zero.setAry 0 (some p) : IdrLayer Address) with count := 1 }).setBit 0).Shows
      (fun m => (IdrTree.between node value).entry (l + 1) m)
      (fun m => (IdrTree.between node value).marked (l + 1) m) 0 := by
  have empty : (IdrLayer.zero : IdrLayer Address).Shows (fun _ => none) (fun _ => False) 0 :=
    .of_none (fun _ _ => rfl) fun _ _ => id
  have filled := empty.put (n := 0) (x := some p) (by decide) rfl
    (show (IdrTree.between node value).entry (l + 1) 0 = some (some p) by
      rw [IdrTree.entry, show (IdrTree.between node value).node l 0 = some p from top]
      rfl) fun m _ different => by
        by_contra occupied
        rcases sound.shaped.above (l + 1) m (Option.isSome_iff_ne_none.mpr occupied) with
          ⟨below, -⟩ | ⟨-, -, first⟩
        · omega
        · exact different first
  refine filled.setBit 0 _ fun m _ => ?_
  rw [false_or]
  constructor
  · intro fullHere
    by_contra different
    have present := fullHere (m * 64 ^ (l + 1)) (Radix.first_div (by decide))
    have outside := @IdrTree.Shaped.value_none _ _ _ sound.shaped (m * 64 ^ (l + 1)) (by
      rw [layers]
      exact Nat.le_mul_of_pos_left _ (Nat.pos_of_ne_zero different))
    exact Option.isSome_iff_ne_none.mp present outside
  · rintro rfl
    exact full

theorem buildUp_full (sound : idp.Sound node value free) (layers : idp.layers = l + 1)
    (room : l + 1 ≤ 4) (full : Radix.Full 64 (Present value) (l + 1) 0) (enough : 5 ≤ rounds)
    (ptr : Option Address) :
    ∃ after answer, buildUp rounds idp ptr (64 ^ (l + 1)) = some (after, .inr answer) ∧
      GotNew value free ptr after answer := by
  obtain ⟨p, pa, top, -, searching⟩ := sound.searching 0 layers (by decide) (by simp)
  obtain ⟨layer, stored, shown⟩ := sound.shows _ _ _ searching.here
  have notEmpty : layer.count ≠ 0 := by
    intro zero
    have vacant := shown.eq_none_of_count zero 0 (by decide)
    have present := full 0 (Nat.zero_div _)
    have occupied := @IdrTree.Shaped.ancestor _ _ _ 0 0 sound.shaped present l (by omega)
    rw [Nat.zero_add, Nat.zero_div] at occupied
    rw [show 64 * (0 / 64) + 0 = 0 from rfl] at vacant
    rw [vacant] at occupied
    cases occupied
  have isFull : layer.bitmap = idrFull := IdrLayer.bitmap_full_iff.mpr fun m small =>
    (searching.bit_iff stored small).mpr ((Radix.full_succ (by decide)).mp full m small)
  obtain ⟨left, leftEq⟩ : ∃ left, maxLevel - (l + 1) = left + 1 + 1 :=
    ⟨maxLevel - (l + 1) - 2, by unfold maxLevel; omega⟩
  have low {height : Nat} (small : height ≤ 5) :
      shiftedOne (height * idrBits) = some (64 ^ height) := by
    rw [Nat.mul_comm, shiftedOne_eq small]
  have notBelow : ¬ 64 ^ (l + 1) < 64 ^ (l + 1) := Nat.lt_irrefl _
  obtain ⟨rounds, rfl⟩ : ∃ fewer, rounds = fewer + 1 := ⟨rounds - 1, by omega⟩
  cases free with
  | nil =>
      refine ⟨idp, .error .eagain, ?_, .inl ⟨rfl, Nat.succ_pos 5, node, sound⟩⟩
      simp only [buildUp, topLayer, top, layers, leftEq, growTop, low (show l + 1 ≤ 5 by omega),
        stored, sound.unused.alloc_nil, tearDown, Option.bind_eq_bind, Option.bind_some,
        notBelow, if_false, notEmpty, if_true]
  | cons a rest =>
      obtain ⟨middle, allocated, laid, sameTop, sameLayers, memory⟩ := sound.alloc
      rw [layers] at sameLayers
      have fresh := (laid.fresh a List.mem_cons_self).1
      have here : node l 0 = some p := searching.here
      have raised := laid.raise
        (({ (IdrLayer.zero.setAry 0 (some p) : IdrLayer Address) with count := 1 }).setBit 0)
        (by omega) (by rw [sameLayers]; exact sound.shows_top layers here full)
      rw [sameLayers] at raised
      have before (id : Nat) (below : id < 1 * 64 ^ (l + 1)) : Present value id :=
        full id (Nat.div_eq_of_lt (by rwa [Nat.one_mul] at below))
      have missing : ¬ Radix.Full 64 (Present value) (l + 1 + 1) 0 := by
        intro fullAbove
        have present := fullAbove (64 ^ (l + 1)) (Nat.div_eq_of_lt
          (Nat.pow_lt_pow_right (by decide) (Nat.lt_succ_self _)))
        exact Option.isSome_iff_ne_none.mp present
          (sound.shaped.value_none (by rw [layers]))
      obtain ⟨after, answer, ran, found⟩ := @Sound.subAlloc_spec _ _ _
        ((IdrTree.between node value).place (l + 1) 0 (some a)).node _ _ (l + 1) _ raised 1 rfl
        (by decide) before missing enough ptr
      refine ⟨after, answer, ?_, gotNew_of_subAlloc (by simp) found⟩
      rw [Nat.one_mul] at ran
      have grows : 64 ^ (l + 1) < 64 ^ (l + 1 + 1) :=
        Nat.pow_lt_pow_right (by decide) (Nat.lt_succ_self _)
      simp only [buildUp, topLayer, top, layers, leftEq, growTop, low (show l + 1 ≤ 5 by omega),
        low (show l + 1 + 1 ≤ 5 by omega), stored, allocated, Idr.assign_eq fresh, isFull,
        Option.bind_eq_bind, Option.bind_some, notBelow, if_false, notEmpty, grows, if_true]
      exact ran

/-- While not all numbers of 30 bits are taken, `idr_get_new` gives the least free
one, or reports that there are not enough free layers. -/
theorem idrGetNew_spec (sound : idp.Sound node value free)
    (room : ∃ id < 64 ^ 5, ¬ Present value id) (enough : 5 ≤ rounds) (ptr : Option Address) :
    ∃ after answer, idrGetNew rounds idp ptr = some (after, answer) ∧
      GotNew value free ptr after answer := by
  have few := sound.small
  obtain ⟨rounds, rfl⟩ : ∃ fewer, rounds = fewer + 1 + 1 := ⟨rounds - 2, by omega⟩
  cases layers : idp.layers with
  | zero =>
      obtain ⟨after, answer, ran, found⟩ := sound.buildUp_first layers enough ptr
      refine ⟨after, answer, ?_, found⟩
      simp only [idrGetNew, idrGetNewAboveInt, ran, Option.bind_eq_bind, Option.bind_some]
  | succ l =>
      have plain := @buildUp_space _ _ _ _ _ _ _ (rounds + 1 + 1) sound layers ptr
      by_cases full : Radix.Full 64 (Present value) (l + 1) 0
      · have more : l + 1 ≤ 4 := by
          obtain ⟨id, small, absent⟩ := room
          by_contra large
          obtain rfl : l = 4 := by omega
          exact absent (full id (Nat.div_eq_of_lt small))
        obtain ⟨after, answer, ran, found⟩ := sound.buildUp_full layers more full enough ptr
        refine ⟨after, answer, ?_, found⟩
        rw [sound.subAlloc_full layers full enough] at plain
        simp only [idrGetNew, idrGetNewAboveInt, plain, ran, Option.bind_eq_bind,
          Option.bind_some]
      · obtain ⟨after, answer, ran, found⟩ := sound.subAlloc_spec 0 layers (by decide)
          (by simp) full enough ptr
        rw [Nat.zero_mul] at ran
        refine ⟨after, answer, ?_, gotNew_of_subAlloc (Nat.le_succ _) found⟩
        simp only [idrGetNew, idrGetNewAboveInt, plain, ran, Option.bind_eq_bind,
          Option.bind_some]

end Idr.Sound

end UtilsModules.Datastruct
