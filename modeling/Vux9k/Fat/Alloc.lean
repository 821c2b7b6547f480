import Mathlib.Algebra.BigOperators.Intervals
import Vux9k.Fat.View
import Vux9k.Fat.Write

/-!
# Free clusters

`alloc_cluster` and `free_clusters` of `fw_common/src/fat/write.rs` against the FAT as the volume
sees it: through the cache, whose sector may have changes that the card does not have yet.  An entry
is a word of the FAT, of which the top four bits are reserved.
-/

set_option autoImplicit false

namespace Vux9k

variable {c c' c'' : Card} {v v' v'' : Volume}

/-! ## Words of the FAT -/

/-- Entry `n` with its reserved bits. -/
def Volume.raw (v : Volume) (c : Card) (n : ℕ) : Word :=
  word (v.fatSector c (n / 128)) (n % 128 * 4)

/-- The entries that the FAT has room for; the clusters' are among them. -/
def Geometry.entries (g : Geometry) : ℕ := g.fatSectors * 128

theorem Volume.entry_eq_raw (v : Volume) (c : Card) (n : ℕ) :
    v.entry c n = (v.raw c n &&& entryMask).toNat := rfl

/-- An entry with its 28 bits set. -/
def reserved (old : Word) (value : ℕ) : Word := (old &&& ~~~entryMask) ||| BitVec.ofNat 32 value

theorem ofNat_and_mask {value : ℕ} (h : value ≤ entryMask.toNat) :
    BitVec.ofNat 32 value &&& entryMask = BitVec.ofNat 32 value := by
  have hlt : value < 2 ^ 28 := Nat.lt_of_le_pred (by decide) h
  apply BitVec.eq_of_toNat_eq
  rw [BitVec.toNat_and, BitVec.toNat_ofNat, Nat.mod_eq_of_lt (by omega)]
  exact (Nat.and_two_pow_sub_one_eq_mod value 28).trans (Nat.mod_eq_of_lt hlt)

theorem reserved_and_mask (old : Word) {value : ℕ} (h : value ≤ entryMask.toNat) :
    (reserved old value &&& entryMask).toNat = value := by
  have hlt : value < 2 ^ 28 := Nat.lt_of_le_pred (by decide) h
  have hclear : old &&& ~~~entryMask &&& entryMask = 0#32 := by
    rw [BitVec.and_assoc]
    exact BitVec.and_zero
  have hand : reserved old value &&& entryMask = BitVec.ofNat 32 value := by
    rw [reserved, BitVec.and_comm, BitVec.and_or_distrib_left, BitVec.and_comm entryMask,
      hclear, BitVec.and_comm entryMask, ofNat_and_mask h, BitVec.zero_or]
  rw [hand, BitVec.toNat_ofNat, Nat.mod_eq_of_lt (by omega)]

/-- The reserved bits stay. -/
theorem reserved_and_not_mask (old : Word) {value : ℕ} (h : value ≤ entryMask.toNat) :
    reserved old value &&& ~~~entryMask = old &&& ~~~entryMask := by
  have hclear : BitVec.ofNat 32 value &&& ~~~entryMask = 0#32 := by
    rw [← ofNat_and_mask h, BitVec.and_assoc]
    exact BitVec.and_zero
  rw [reserved, BitVec.and_comm, BitVec.and_or_distrib_left, BitVec.and_comm (~~~entryMask),
    BitVec.and_comm (~~~entryMask), hclear, BitVec.or_zero, BitVec.and_assoc, BitVec.and_self]

theorem word_splice_self (s : Sector) (i : ℕ) (w : Word) : word (splice s i (leBytes w)) i = w := by
  have hat : ∀ k < 4, splice s i (leBytes w) (i + k) = (leBytes w).getD k 0#8 := by
    intro k hk
    rw [splice, if_pos ⟨by omega, by rw [leBytes_length]; omega⟩, Nat.add_sub_cancel_left]
  have h0 := hat 0 (by omega)
  rw [Nat.add_zero] at h0
  rw [word, h0, hat 1 (by omega), hat 2 (by omega), hat 3 (by omega)]
  exact leWord_leBytes w

theorem word_splice_of_ne (s : Sector) {i j : ℕ} (h : j + 4 ≤ i ∨ i + 4 ≤ j) (w : Word) :
    word (splice s i (leBytes w)) j = word s j := by
  have hat : ∀ k < 4, splice s i (leBytes w) (j + k) = s (j + k) := by
    intro k hk
    rw [splice, if_neg]
    rw [leBytes_length]
    omega
  have h0 := hat 0 (by omega)
  rw [Nat.add_zero] at h0
  rw [word, h0, hat 1 (by omega), hat 2 (by omega), hat 3 (by omega)]
  rfl

/-- An entry of a sector in which another has been set. -/
theorem word_setEntry (s : Sector) {n m value : ℕ} (h : m / 128 = n / 128) :
    word (Vol.setEntry s n value) (m % 128 * 4) =
      if m = n then reserved (word s (n % 128 * 4)) value else word s (m % 128 * 4) := by
  rw [Vol.setEntry]
  by_cases hm : m = n
  · rw [if_pos hm, hm, word_splice_self]
    rfl
  · rw [if_neg hm, word_splice_of_ne]
    omega

/-! ## Changing the FAT -/

/-- The FAT has been given the entries `f`, and nothing else that can be seen has changed but the
hint where to look for a free cluster. -/
structure Entered (c : Card) (v : Volume) (c' : Card) (v' : Volume) (f : ℕ → Word) : Prop where
  sound : Sound c' v'
  geometry : v'.toGeometry = v.toGeometry
  fsinfoDone : v'.fsinfoDone = v.fsinfoDone
  raw : ∀ n < v.entries, v'.raw c' n = f n
  rest : ∀ lba, lba < v.fatLba ∨ v.dataLba ≤ lba → c' lba = c lba

theorem Same.raw_eq (h : Same c v c' v') {n : ℕ} (hn : n < v.entries) :
    v'.raw c' n = v.raw c n := by
  have hi : n / 128 < v.fatSectors := by
    unfold Geometry.entries at hn
    omega
  rw [Volume.raw, Volume.raw, h.fat _ hi]

theorem Entered.after_same {f : ℕ → Word} (h : Same c v c' v') (h' : Entered c' v' c'' v'' f) :
    Entered c v c'' v'' f where
  sound := h'.sound
  geometry := h'.geometry.trans h.geometry
  fsinfoDone := h'.fsinfoDone.trans h.fsinfoDone
  raw n hn := h'.raw n (by rwa [h.geometry])
  rest lba hlba := (h'.rest lba (by rwa [h.geometry])).trans (h.rest lba hlba)

theorem Entered.trans {f f' : ℕ → Word} (h : Entered c v c' v' f) (h' : Entered c' v' c'' v'' f') :
    Entered c v c'' v'' f' where
  sound := h'.sound
  geometry := h'.geometry.trans h.geometry
  fsinfoDone := h'.fsinfoDone.trans h.fsinfoDone
  raw n hn := h'.raw n (by rwa [h.geometry])
  rest lba hlba := (h'.rest lba (by rwa [h.geometry])).trans (h.rest lba hlba)

theorem Entered.congr {f f' : ℕ → Word} (h : Entered c v c' v' f)
    (hf : ∀ n < v.entries, f n = f' n) : Entered c v c' v' f' :=
  { h with raw := fun n hn ↦ (h.raw n hn).trans (hf n hn) }

/-- The FAT `f` with one entry set. -/
def entered (f : ℕ → Word) (n value : ℕ) : ℕ → Word :=
  Function.update f n (reserved (f n) value)

/-- **`set_fat` sets one entry.** -/
theorem onCard_setFat (h : Sound c v) {n : ℕ} (hn : n < v.entries) (value : ℕ) :
    ∃ v' ws, onCard (Vol.setFat n value v) c = ((.ok (), v'), ws) ∧
      Entered c v (c.after ws) v' (entered (v.raw c) n value) ∧ v'.nextFree = v.nextFree := by
  have hi : n / 128 < v.fatSectors := by
    unfold Geometry.entries at hn
    omega
  have hload := h.same_load hi
  obtain ⟨hcached, hbuf⟩ := h.fatSector_loaded hi
  generalize hw : v.loaded c (n / 128) = w at hload hcached hbuf
  refine ⟨{ w with fatBuf := Vol.setEntry w.fatBuf n value, fatDirty := true },
    v.evicted (n / 128) ++ [], onCard_bind_ok (onCard_loadFat c v (n / 128)) ?_, ?_, hload.nextFree⟩
  · rw [hw]
    rfl
  rw [List.append_nil]
  refine ⟨⟨?_, ?_, ?_⟩, hload.geometry, hload.fsinfoDone, fun m hm ↦ ?_, hload.rest⟩
  · exact hload.sound.laid
  · rintro ⟨⟩
  · intro _
    change w.fatCached < w.fatSectors
    rw [hcached, hload.geometry]
    exact hi
  · have hold := hload.raw_eq hm
    rw [Volume.raw, Volume.fatSector] at hold ⊢
    change word (if w.fatCached = m / 128 then Vol.setEntry w.fatBuf n value
      else c.after (v.evicted (n / 128)) (w.fatLba + m / 128)) _ = _
    by_cases hm128 : m / 128 = n / 128
    · rw [if_pos (hcached.trans hm128.symm), word_setEntry _ hm128, hbuf, entered,
        Function.update_apply]
      by_cases hmn : m = n
      · rw [if_pos hmn, if_pos hmn]
        rfl
      · rw [if_neg hmn, if_neg hmn, Volume.raw, hm128]
    · have hne : ¬w.fatCached = m / 128 := by
        rw [hcached]
        exact fun heq ↦ hm128 heq.symm
      rw [if_neg hne] at hold ⊢
      rw [hold, entered, Function.update_of_ne]
      rintro rfl
      exact hm128 rfl

/-! ## The search -/

/-- The cluster that the search asks for after `k` others, from `start` on. -/
def Geometry.probe (g : Geometry) (start k : ℕ) : ℕ := 2 + (start - 2 + k) % (g.clusterEnd - 2)

section

variable {g : Geometry}

theorem Geometry.probe_zero {start : ℕ} (h2 : 2 ≤ start) (hend : start ≤ g.clusterEnd)
    (hg : 2 < g.clusterEnd) :
    g.probe start 0 = if g.clusterEnd ≤ start then 2 else start := by
  rw [Geometry.probe, Nat.add_zero]
  split
  · rw [show start = g.clusterEnd by omega, Nat.mod_self]
  · rw [Nat.mod_eq_of_lt (by omega)]
    omega

/-- The search goes on with the cluster after. -/
theorem Geometry.probe_succ {start : ℕ} (h2 : 2 ≤ start) (hend : start ≤ g.clusterEnd)
    (hg : 2 < g.clusterEnd) (k : ℕ) :
    g.probe (g.probe start 0 + 1) k = g.probe start (k + 1) := by
  rw [Geometry.probe_zero h2 hend hg]
  unfold Geometry.probe
  split
  · rw [show start = g.clusterEnd by omega, show g.clusterEnd - 2 + (k + 1) =
      (2 + 1 - 2 + k) + (g.clusterEnd - 2) by omega, Nat.add_mod_right]
  · rw [show start + 1 - 2 + k = start - 2 + (k + 1) by omega]

theorem Geometry.isCluster_probe (hg : 2 < g.clusterEnd) (start k : ℕ) :
    g.isCluster (g.probe start k) = true := by
  have hlt := Nat.mod_lt (start - 2 + k) (by omega : 0 < g.clusterEnd - 2)
  rw [Geometry.isCluster, Bool.and_eq_true, decide_eq_true_eq, decide_eq_true_eq, Geometry.probe]
  omega

/-- Every cluster is asked for. -/
theorem Geometry.exists_probe {start n : ℕ} (h2 : 2 ≤ start) (hend : start ≤ g.clusterEnd)
    (hn : g.isCluster n = true) : ∃ k < g.clusterEnd - 2, g.probe start k = n := by
  rw [Geometry.isCluster, Bool.and_eq_true, decide_eq_true_eq, decide_eq_true_eq] at hn
  by_cases hle : start ≤ n
  · refine ⟨n - start, by omega, ?_⟩
    rw [Geometry.probe, Nat.mod_eq_of_lt (by omega)]
    omega
  · refine ⟨g.clusterEnd - 2 - (start - n), by omega, ?_⟩
    rw [Geometry.probe, show start - 2 + (g.clusterEnd - 2 - (start - n)) =
      n - 2 + (g.clusterEnd - 2) by omega, Nat.add_mod_right, Nat.mod_eq_of_lt (by omega)]
    omega

end

theorem Geometry.Laid.lt_entries {g : Geometry} (hg : g.Laid) {n : ℕ} (hn : g.isCluster n = true) :
    n < g.entries := by
  rw [Geometry.isCluster, Bool.and_eq_true, decide_eq_true_eq, decide_eq_true_eq] at hn
  have := hg.entries
  rw [Geometry.entries]
  omega

theorem Geometry.Laid.le_mask {g : Geometry} (hg : g.Laid) {n : ℕ} (hn : g.isCluster n = true) :
    n ≤ entryMask.toNat := by
  have hlt := (hg.toOk.lt_eoc hn).2.2.1
  have hmask : entryMask.toNat = eocMin + 7 := rfl
  omega

/-- The FAT after `alloc_cluster` has taken cluster `n`. -/
def allocated (f : ℕ → Word) (n : ℕ) : Option ℕ → ℕ → Word
  | none => entered f n entryMask.toNat
  | some p => entered (entered f n entryMask.toNat) p n

/-- What `alloc_cluster` does: it takes the free cluster `n`, and leaves the hint behind it. -/
structure Took (c : Card) (v : Volume) (prev : Option ℕ) (n : ℕ) (c' : Card) (v' : Volume) :
    Prop extends Entered c v c' v' (allocated (v.raw c) n prev) where
  cluster : v.isCluster n = true
  free : v.entry c n = 0
  nextFree : v'.nextFree = n + 1

theorem Took.after_same {prev : Option ℕ} {n : ℕ} (h : Same c v c' v')
    (hprev : ∀ p, prev = some p → v.isCluster p = true) (h' : Took c' v' prev n c'' v'') :
    Took c v prev n c'' v'' := by
  have hgeo := h.geometry
  have hlaid : v.toGeometry.Laid := hgeo ▸ h.sound.laid
  have hn : v.isCluster n = true := hgeo ▸ h'.cluster
  have hsame : ∀ m, v.isCluster m = true → v'.raw c' m = v.raw c m :=
    fun m hm ↦ h.raw_eq (hlaid.lt_entries hm)
  refine ⟨(Entered.after_same h h'.toEntered).congr fun m hm ↦ ?_, hn, ?_, h'.nextFree⟩
  · have hm' := h.raw_eq hm
    cases prev with
    | none =>
      simp only [allocated, entered, Function.update_apply, hsame n hn, hm']
    | some p =>
      simp only [allocated, entered, Function.update_apply, hsame n hn, hsame p (hprev p rfl), hm']
  · rw [Volume.entry_eq_raw, ← hsame n hn]
    exact h'.free

/-- The search stops at a free cluster and takes it. -/
theorem onCard_allocFrom_free (h : Sound c v) {prev : Option ℕ}
    (hprev : ∀ p, prev = some p → v.isCluster p = true) {start n : ℕ} (k : ℕ)
    (hstart : (if v.clusterEnd ≤ start then 2 else start) = n) (hn : v.isCluster n = true)
    (hfree : v.entry c n = 0) :
    ∃ v' ws, onCard (Vol.allocFrom prev (k + 1) start v) c = ((.ok n, v'), ws) ∧
      Took c v prev n (c.after ws) v' := by
  have hlt := (h.laid.toOk.lt_eoc hn).2.1
  obtain ⟨v₁, ws₁, hentry, hsame⟩ := peeks_fatEntry h hlt
  have hgeo := hsame.geometry
  have hlaid := hsame.sound.laid
  have hn₁ : v₁.isCluster n = true := by rwa [hgeo]
  have hfree₁ : v₁.entry (c.after ws₁) n = 0 := (hsame.entry_eq h.laid hlt).trans hfree
  rw [hfree] at hentry
  obtain ⟨v₂, ws₂, hset, hent, -⟩ :=
    onCard_setFat hsame.sound (hlaid.lt_entries hn₁) entryMask.toNat
  cases prev with
  | none =>
    refine ⟨{ v₂ with nextFree := n + 1 }, [] ++ (ws₁ ++ (ws₂ ++ [])), ?_, ?_⟩
    · rw [Vol.allocFrom]
      refine onCard_bind_ok (a := v) rfl ?_
      dsimp only
      rw [hstart]
      refine onCard_bind_ok hentry ?_
      rw [if_pos rfl]
      exact onCard_bind_ok hset rfl
    · rw [List.nil_append, List.append_nil, Card.after_append]
      refine Took.after_same hsame hprev ⟨?_, hn₁, hfree₁, rfl⟩
      exact ⟨⟨hent.sound.laid, hent.sound.clean, hent.sound.dirty⟩, hent.geometry, hent.fsinfoDone,
        hent.raw, hent.rest⟩
  | some p =>
    have hp₁ : p < v₁.entries := by
      rw [hgeo]
      exact h.laid.lt_entries (hprev p rfl)
    have hp₂ : p < v₂.entries := by rwa [hent.geometry]
    obtain ⟨v₃, ws₃, hset', hent', -⟩ := onCard_setFat hent.sound hp₂ n
    refine ⟨{ v₃ with nextFree := n + 1 }, [] ++ (ws₁ ++ (ws₂ ++ (ws₃ ++ []))), ?_, ?_⟩
    · rw [Vol.allocFrom]
      refine onCard_bind_ok (a := v) rfl ?_
      dsimp only
      rw [hstart]
      refine onCard_bind_ok hentry ?_
      rw [if_pos rfl]
      exact onCard_bind_ok hset (onCard_bind_ok hset' rfl)
    · rw [List.nil_append, List.append_nil, Card.after_append, Card.after_append]
      refine Took.after_same hsame hprev ⟨?_, hn₁, hfree₁, rfl⟩
      have hraw : ∀ m < v₁.entries, entered (v₂.raw ((c.after ws₁).after ws₂)) p n m =
          allocated (v₁.raw (c.after ws₁)) n (some p) m := fun m hm ↦ by
        simp only [allocated, entered, Function.update_apply, hent.raw m hm, hent.raw p hp₁]
      have hboth := (hent.trans hent').congr hraw
      exact ⟨⟨hboth.sound.laid, hboth.sound.clean, hboth.sound.dirty⟩, hboth.geometry,
        hboth.fsinfoDone, hboth.raw, hboth.rest⟩

/-- What the search returns, and the state it leaves. -/
def Searched (c : Card) (v : Volume) (prev : Option ℕ) (start k : ℕ) (m : Vol ℕ) : Prop :=
  (∃ n v' ws, onCard (m v) c = ((.ok n, v'), ws) ∧ Took c v prev n (c.after ws) v') ∨
    (∀ j < k, v.entry c (v.probe start j) ≠ 0) ∧ Peeks c v m (.error .diskFull)

/-- **The search**, for `k` clusters. -/
theorem searched_allocFrom (h : Sound c v) {prev : Option ℕ}
    (hprev : ∀ p, prev = some p → v.isCluster p = true) (hg : 2 < v.clusterEnd) (k : ℕ) {start : ℕ}
    (h2 : 2 ≤ start) (hend : start ≤ v.clusterEnd) :
    Searched c v prev start k (Vol.allocFrom prev k start) := by
  induction k generalizing c v start with
  | zero => exact .inr ⟨fun j hj ↦ absurd hj (by omega), peeks_throw h _⟩
  | succ k ih =>
    have hprobe := Geometry.probe_zero h2 hend hg
    have hn := Geometry.isCluster_probe hg start 0
    by_cases hfree : v.entry c (v.probe start 0) = 0
    · obtain ⟨v', ws, hrun, htook⟩ := onCard_allocFrom_free h hprev k hprobe.symm hn hfree
      exact .inl ⟨_, v', ws, hrun, htook⟩
    · have hlt := h.laid.toOk.lt_eoc hn
      obtain ⟨v₁, ws₁, hentry, hsame⟩ := peeks_fatEntry h hlt.2.1
      have hgeo := hsame.geometry
      have hrun : ∀ x ws₂, onCard (Vol.allocFrom prev k (v.probe start 0 + 1) v₁) (c.after ws₁) =
          (x, ws₂) → onCard (Vol.allocFrom prev (k + 1) start v) c = (x, [] ++ (ws₁ ++ ws₂)) := by
        intro x ws₂ hrest
        rw [Vol.allocFrom]
        refine onCard_bind_ok (a := v) rfl ?_
        dsimp only
        rw [← hprobe]
        refine onCard_bind_ok hentry ?_
        rw [if_neg hfree]
        exact hrest
      have hmin : 2 ≤ v.probe start 0 + 1 := by omega
      have hrest := ih hsame.sound (by rwa [hgeo]) (by rwa [hgeo]) hmin (by rw [hgeo]; omega)
      rcases hrest with ⟨n, v', ws, hall, htook⟩ | ⟨hnone, v', ws, hall, hpeek⟩
      · refine .inl ⟨n, v', _, hrun _ _ hall, ?_⟩
        rw [List.nil_append, Card.after_append]
        exact Took.after_same hsame hprev htook
      · refine .inr ⟨fun j hj ↦ ?_, v', _, hrun _ _ hall, ?_⟩
        · cases j with
          | zero => exact hfree
          | succ j =>
            have hj := hnone j (by omega)
            rw [hgeo, Geometry.probe_succ h2 hend hg] at hj
            rwa [hsame.entry_eq h.laid
              (h.laid.toOk.lt_eoc (Geometry.isCluster_probe hg start (j + 1))).2.1] at hj
        · rw [List.nil_append, Card.after_append]
          exact hsame.trans hpeek

/-! ## The count -/

/-- The free clusters. -/
def Volume.free (v : Volume) (c : Card) : Finset ℕ :=
  (Finset.Ico 2 v.clusterEnd).filter fun n ↦ v.entry c n = 0

theorem mem_free {n : ℕ} : n ∈ v.free c ↔ v.isCluster n = true ∧ v.entry c n = 0 := by
  rw [Volume.free, Finset.mem_filter, Finset.mem_Ico, Geometry.isCluster, Bool.and_eq_true,
    decide_eq_true_eq, decide_eq_true_eq]

/-- The bytes of a free entry. -/
theorem free_bytes_iff (b₀ b₁ b₂ b₃ : Byte) :
    b₀ ||| b₁ ||| b₂ ||| b₃ &&& 0x0F#8 = 0#8 ↔ (leWord b₀ b₁ b₂ b₃ &&& entryMask).toNat = 0 := by
  have hzero : (leWord b₀ b₁ b₂ b₃ &&& entryMask).toNat = 0 ↔
      leBytes (leWord b₀ b₁ b₂ b₃ &&& entryMask) = leBytes 0#32 := by
    constructor
    · intro h
      rw [BitVec.eq_of_toNat_eq (y := 0#32) h]
    · intro h
      rw [leBytes_injective h]
      rfl
  have hbytes : leBytes (leWord b₀ b₁ b₂ b₃ &&& entryMask) = [b₀, b₁, b₂, b₃ &&& 0x0F#8] := by
    have hword := leBytes_leWord b₀ b₁ b₂ b₃
    simp only [leBytes, List.cons.injEq, and_true, BitVec.ushiftRight_and_distrib,
      BitVec.setWidth_and] at hword ⊢
    rw [hword.1, hword.2.1, hword.2.2.1, hword.2.2.2]
    exact ⟨BitVec.and_allOnes, BitVec.and_allOnes, BitVec.and_allOnes, rfl⟩
  rw [hzero, hbytes]
  simp [leBytes, BitVec.or_eq_zero_iff, and_assoc]

/-- The entries of a part of a sector. -/
theorem freeIn_eq (s : Sector) {k n : ℕ} (h : k % 128 + n ≤ 128) :
    Vol.freeIn s (k % 128 * 4) n =
      ∑ m ∈ Finset.Ico k (k + n), if Vol.entryIn s m = 0 then 1 else 0 := by
  induction n generalizing k with
  | zero => simp [Vol.freeIn]
  | succ n ih =>
    have hhead : (s (k % 128 * 4) ||| s (k % 128 * 4 + 1) ||| s (k % 128 * 4 + 2) |||
        s (k % 128 * 4 + 3) &&& 0x0F#8 = 0#8) ↔ Vol.entryIn s k = 0 := free_bytes_iff _ _ _ _
    rw [Vol.freeIn, Finset.sum_eq_sum_Ico_succ_bot (by omega)]
    simp only [hhead]
    congr 1
    cases n with
    | zero => simp [Vol.freeIn]
    | succ n =>
      have hmod : (k + 1) % 128 = k % 128 + 1 := by omega
      have hrest := ih (k := k + 1) (by omega)
      rw [hmod, Nat.add_mul, Nat.one_mul] at hrest
      rw [hrest, show k + 1 + (n + 1) = k + (n + 1 + 1) by omega]

/-- The end of the FAT sector that cluster `k` is in. -/
theorem or_127 (k : ℕ) : (k ||| 127) + 1 = (k / 128 + 1) * 128 := by
  have hlow : ∀ r < 128, r ||| 127 = 127 := by decide
  have hsplit : k = 2 ^ 7 * (k / 128) ||| k % 128 := by
    rw [← Nat.two_pow_add_eq_or_of_lt (Nat.mod_lt k (by decide))]
    exact (Nat.div_add_mod k 128).symm
  have hor : k ||| 127 = 2 ^ 7 * (k / 128) + 127 :=
    calc k ||| 127 = 2 ^ 7 * (k / 128) ||| k % 128 ||| 127 := by rw [← hsplit]
      _ = 2 ^ 7 * (k / 128) ||| 127 := by
        rw [Nat.or_assoc, hlow _ (Nat.mod_lt k (by decide))]
      _ = 2 ^ 7 * (k / 128) + 127 := (Nat.two_pow_add_eq_or_of_lt (by decide) _).symm
  omega

/-- The clusters of a FAT sector, from cluster `k` on. -/
theorem freeIn_fatSector {k stop : ℕ} (hk : k < v.clusterEnd)
    (hstop : stop = min ((k ||| 127) + 1) v.clusterEnd) :
    Vol.freeIn (v.fatSector c (k / 128)) (k % 128 * 4) (stop - k) =
      ∑ m ∈ Finset.Ico k stop, if v.entry c m = 0 then 1 else 0 := by
  rw [or_127] at hstop
  rw [freeIn_eq _ (by omega), show k + (stop - k) = stop by omega]
  refine Finset.sum_congr rfl fun m hm ↦ ?_
  rw [Finset.mem_Ico] at hm
  rw [Volume.entry, show m / 128 = k / 128 by omega]

theorem peeks_countFrom (h : Sound c v) {fuel k : ℕ} (hfuel : v.clusterEnd - k < fuel) (n : ℕ) :
    Peeks c v (Vol.countFrom fuel k n)
      (.ok (n + ∑ m ∈ Finset.Ico k v.clusterEnd, if v.entry c m = 0 then 1 else 0)) := by
  induction fuel generalizing c v k n with
  | zero => omega
  | succ fuel ih =>
    rw [Vol.countFrom]
    by_cases hk : k < v.clusterEnd
    · have hi := h.laid.sector_lt hk
      have hload := h.fatSector_loaded hi
      obtain ⟨stop, hstop⟩ : ∃ stop, stop = min ((k ||| 127) + 1) v.clusterEnd := ⟨_, rfl⟩
      have hsame := h.same_load hi
      have hgeo := hsame.geometry
      have hlt : k < stop ∧ stop ≤ v.clusterEnd := by
        rw [or_127] at hstop
        omega
      have hcount := freeIn_fatSector (c := c) hk hstop
      have hrest := ih hsame.sound (k := stop) (by rw [hgeo]; omega)
        (n + Vol.freeIn (v.fatSector c (k / 128)) (k % 128 * 4) (stop - k))
      have hsum : ∑ m ∈ Finset.Ico stop (v.loaded c (k / 128)).clusterEnd,
          (if (v.loaded c (k / 128)).entry (c.after (v.evicted (k / 128))) m = 0 then 1 else 0) =
          ∑ m ∈ Finset.Ico stop v.clusterEnd, if v.entry c m = 0 then 1 else 0 := by
        rw [hgeo]
        refine Finset.sum_congr rfl fun m hm ↦ ?_
        rw [hsame.entry_eq h.laid (Finset.mem_Ico.mp hm).2]
      rw [hsum, hcount, Nat.add_assoc,
        Finset.sum_Ico_consecutive _ hlt.1.le hlt.2] at hrest
      obtain ⟨v', ws, hrun, hpeek⟩ := hrest
      refine ⟨v', [] ++ (v.evicted (k / 128) ++ ([] ++ ws)), ?_, ?_⟩
      · refine onCard_bind_ok (a := v) rfl ?_
        dsimp only
        rw [if_pos hk]
        refine onCard_bind_ok (onCard_loadFat c v (k / 128)) ?_
        refine @onCard_bind_ok _ _ _ _ _ _ _ _ [] _ _ rfl ?_
        rw [hload.2, ← hstop, hcount]
        exact hrun
      · rw [List.nil_append, List.nil_append, Card.after_append]
        exact hsame.trans hpeek
    · refine (peeks_gets h id).bind fun c' v' hv' ↦ ?_
      dsimp only [id]
      rw [if_neg hk, Finset.Ico_eq_empty (by omega), Finset.sum_empty]
      exact peeks_pure hv'.sound n

/-- **`free_clusters` counts the free clusters.** -/
theorem peeks_freeClusters (h : Sound c v) (hg : 2 ≤ v.clusterEnd) :
    Peeks c v Vol.freeClusters (.ok (v.free c).card) := by
  have hcount := peeks_countFrom h (k := 2) (show v.clusterEnd - 2 < v.clusterEnd by omega) 0
  rw [Nat.zero_add, ← Finset.card_filter] at hcount
  obtain ⟨v', ws, hrun, hpeek⟩ := hcount
  exact ⟨v', [] ++ ws, onCard_bind_ok rfl hrun, hpeek⟩

/-! ## The two together -/

section

variable {prev : Option ℕ} {n : ℕ}

theorem Took.raw_other (h : Took c v prev n c' v') {m : ℕ} (hm : m < v.entries) (hn : m ≠ n)
    (hp : prev ≠ some m) : v'.raw c' m = v.raw c m := by
  rw [h.raw m hm]
  cases prev with
  | none => rw [allocated, entered, Function.update_of_ne hn]
  | some p =>
    have hmp : m ≠ p := fun heq ↦ hp (by rw [heq])
    rw [allocated, entered, Function.update_of_ne hmp, entered, Function.update_of_ne hn]

/-- The reserved bits of every entry stay. -/
theorem Took.raw_reserved (h : Took c v prev n c' v') (hlaid : v.toGeometry.Laid) {m : ℕ}
    (hm : m < v.entries) : v'.raw c' m &&& ~~~entryMask = v.raw c m &&& ~~~entryMask := by
  have hset : ∀ (f : ℕ → Word) (k value : ℕ), value ≤ entryMask.toNat →
      entered f k value m &&& ~~~entryMask = f m &&& ~~~entryMask := by
    intro f k value hvalue
    rw [entered, Function.update_apply]
    split
    · rename_i hmk
      rw [hmk]
      exact reserved_and_not_mask (f k) hvalue
    · rfl
  rw [h.raw m hm]
  cases prev with
  | none => exact hset _ _ _ le_rfl
  | some p => exact (hset _ _ _ (hlaid.le_mask h.cluster)).trans (hset _ _ _ le_rfl)

theorem Took.entry_other (h : Took c v prev n c' v') {m : ℕ} (hm : m < v.entries) (hn : m ≠ n)
    (hp : prev ≠ some m) : v'.entry c' m = v.entry c m := by
  rw [Volume.entry_eq_raw, h.raw_other hm hn hp, Volume.entry_eq_raw]

/-- The cluster is the end of a chain. -/
theorem Took.entry_new (h : Took c v prev n c' v') (hlaid : v.toGeometry.Laid)
    (hp : prev ≠ some n) : v'.entry c' n = entryMask.toNat := by
  rw [Volume.entry_eq_raw, h.raw n (hlaid.lt_entries h.cluster)]
  cases prev with
  | none =>
    rw [allocated, entered, Function.update_self]
    exact reserved_and_mask _ le_rfl
  | some p =>
    have hnp : n ≠ p := fun heq ↦ hp (by rw [heq])
    rw [allocated, entered, Function.update_of_ne hnp, entered, Function.update_self]
    exact reserved_and_mask _ le_rfl

/-- The cluster before leads to it. -/
theorem Took.entry_prev {p : ℕ} (h : Took c v (some p) n c' v') (hlaid : v.toGeometry.Laid)
    (hp : v.isCluster p = true) : v'.entry c' p = n := by
  rw [Volume.entry_eq_raw, h.raw p (hlaid.lt_entries hp), allocated, entered, Function.update_self]
  exact reserved_and_mask _ (hlaid.le_mask h.cluster)

/-- One free cluster less. -/
theorem Took.free_eq (h : Took c v prev n c' v') (hlaid : v.toGeometry.Laid)
    (hprev : ∀ p, prev = some p → v.isCluster p = true ∧ v.entry c p ≠ 0) :
    v'.free c' = (v.free c).erase n := by
  have hpn : prev ≠ some n := fun hp ↦ (hprev n hp).2 h.free
  have hn := (hlaid.toOk.lt_eoc h.cluster)
  ext m
  rw [Finset.mem_erase, mem_free, mem_free, h.geometry]
  by_cases hmn : m = n
  · subst hmn
    have hmask : entryMask.toNat ≠ 0 := by decide
    simp [h.entry_new hlaid hpn, hmask]
  by_cases hmp : prev = some m
  · obtain ⟨hm, hused⟩ := hprev m hmp
    subst hmp
    rw [h.entry_prev hlaid hm]
    simp only [hused, and_false, iff_false, not_and]
    omega
  · constructor
    · rintro ⟨hm, hzero⟩
      rw [h.entry_other (hlaid.lt_entries hm) hmn hmp] at hzero
      exact ⟨hmn, hm, hzero⟩
    · rintro ⟨-, hm, hzero⟩
      rw [h.entry_other (hlaid.lt_entries hm) hmn hmp]
      exact ⟨hm, hzero⟩

/-- What `alloc_cluster` leaves when it returns cluster `n`. -/
structure Allocated (c : Card) (v : Volume) (prev : Option ℕ) (n : ℕ) (c' : Card) (v' : Volume) :
    Prop where
  sound : Sound c' v'
  cluster : 2 ≤ n ∧ n < v.clusterEnd
  free : v.entry c n = 0
  marked : v'.entry c' n = 0x0FFFFFFF
  linked : ∀ p, prev = some p → v'.entry c' p = n
  others : ∀ m < v.fatSectors * 128, m ≠ n → prev ≠ some m → v'.raw c' m = v.raw c m
  reserved : ∀ m < v.fatSectors * 128,
    v'.raw c' m &&& 0xF0000000#32 = v.raw c m &&& 0xF0000000#32
  nextFree : 2 ≤ v'.nextFree ∧ v'.nextFree ≤ v'.clusterEnd
  count : Peeks c' v' Vol.freeClusters (.ok (v'.free c').card)
  less : (v'.free c').card + 1 = (v.free c).card

theorem Took.allocated (h : Took c v prev n c' v') (hlaid : v.toGeometry.Laid)
    (hprev : ∀ p, prev = some p → v.isCluster p = true ∧ v.entry c p ≠ 0) :
    Allocated c v prev n c' v' := by
  have hn := hlaid.toOk.lt_eoc h.cluster
  have hend : v'.clusterEnd = v.clusterEnd := by rw [h.geometry]
  refine ⟨h.sound, ⟨hn.1, hn.2.1⟩, h.free, ?_, ?_, fun m hm ↦ h.raw_other hm,
    fun m hm ↦ h.raw_reserved hlaid hm, ?_, peeks_freeClusters h.sound (by omega), ?_⟩
  · exact h.entry_new hlaid fun hp ↦ (hprev n hp).2 h.free
  · rintro p rfl
    exact h.entry_prev hlaid (hprev p rfl).1
  · rw [h.nextFree]
    omega
  · rw [h.free_eq hlaid hprev]
    exact Finset.card_erase_add_one (mem_free.mpr ⟨h.cluster, h.free⟩)

/-- **Search and count agree with the FAT.**  With any contents of the FAT, any sector in the cache,
changed or not, and any hint, on a card without errors, and behind a cluster that is in use or none:
`free_clusters` returns the number of the free clusters; `alloc_cluster` returns `DiskFull`, and
changes nothing that can be seen, exactly if there is none; otherwise it returns one of them, as
`Allocated` says. -/
theorem alloc_and_count_agree (h : Sound c v) (hmin : 2 ≤ v.nextFree)
    (hmax : v.nextFree ≤ v.clusterEnd)
    (hprev : ∀ p, prev = some p → v.isCluster p = true ∧ v.entry c p ≠ 0) :
    Peeks c v Vol.freeClusters (.ok (v.free c).card) ∧
    ((onCard (Vol.allocCluster prev v) c).1.1 = .error .diskFull ↔
      ∀ n, 2 ≤ n → n < v.clusterEnd → v.entry c n ≠ 0) ∧
    (Peeks c v (Vol.allocCluster prev) (.error .diskFull) ∨
      ∃ n v' ws, onCard (Vol.allocCluster prev v) c = ((.ok n, v'), ws) ∧
        Allocated c v prev n (c.after ws) v') := by
  have hmem : ∀ n, v.isCluster n = true ↔ 2 ≤ n ∧ n < v.clusterEnd := by
    intro n
    rw [Geometry.isCluster, Bool.and_eq_true, decide_eq_true_eq, decide_eq_true_eq]
  have hrun : ∀ {x : Except FatError ℕ × Volume} {ws : List Wr},
      onCard (Vol.allocFrom prev (v.clusterEnd - 2) v.nextFree v) c = (x, ws) →
      onCard (Vol.allocCluster prev v) c = (x, [] ++ ws) :=
    fun hall ↦ onCard_bind_ok (m := Vol.gets id) (a := v) rfl hall
  have hsearch : Searched c v prev v.nextFree (v.clusterEnd - 2)
      (Vol.allocFrom prev (v.clusterEnd - 2) v.nextFree) := by
    by_cases hg : 2 < v.clusterEnd
    · exact searched_allocFrom h (fun p hp ↦ (hprev p hp).1) hg _ hmin hmax
    · rw [show v.clusterEnd - 2 = 0 by omega]
      exact .inr ⟨fun j hj ↦ absurd hj (by omega), peeks_throw h _⟩
  refine ⟨peeks_freeClusters h (by omega), ?_⟩
  rcases hsearch with ⟨n, v', ws, hall, htook⟩ | ⟨hnone, v', ws, hall, hpeek⟩
  · refine ⟨?_, .inr ⟨n, v', _, hrun hall, htook.allocated h.laid hprev⟩⟩
    rw [hrun hall]
    constructor
    · rintro ⟨⟩
    · intro hfull
      obtain ⟨h2, hlt⟩ := (hmem n).mp htook.cluster
      exact absurd htook.free (hfull n h2 hlt)
  · refine ⟨?_, .inl ⟨v', _, hrun hall, hpeek⟩⟩
    rw [hrun hall]
    refine ⟨fun _ n h2 hlt ↦ ?_, fun _ ↦ rfl⟩
    obtain ⟨k, hk, hprobe⟩ := Geometry.exists_probe hmin hmax ((hmem n).mpr ⟨h2, hlt⟩)
    rw [← hprobe]
    exact hnone k hk

end

/-- A volume of two clusters on an empty card: the first is in use, but only in the cache. -/
def twoClusters : Volume where
  partLba := 0
  fatLba := 1
  fatSectors := 1
  numFats := 2
  dataLba := 3
  clusterShift := 0
  clusterEnd := 4
  root := 2
  fsinfoLba := 0
  buf := fun _ ↦ 0#8
  fatBuf := ofBytes [0xF8#8, 0xFF#8, 0xFF#8, 0x0F#8, 0xFF#8, 0xFF#8, 0xFF#8, 0x0F#8, 0xFF#8, 0xFF#8,
    0xFF#8, 0xAF#8]
  fatCached := 0
  fatDirty := true
  nextFree := 4
  fsinfoDone := true

theorem sound_twoClusters : Sound (fun _ _ ↦ 0#8) twoClusters where
  laid := ⟨⟨by decide⟩, .inr rfl, by decide, by decide, by decide⟩
  clean := by rintro ⟨⟩
  dirty _ := by decide

theorem alloc_and_count_agree_dirty :
    ∃ v' ws, onCard (Vol.allocCluster (some 2) twoClusters) (fun _ _ ↦ 0#8) = ((.ok 3, v'), ws) ∧
      Allocated (fun _ _ ↦ 0#8) twoClusters (some 2) 3 (Card.after (fun _ _ ↦ 0#8) ws) v' := by
  have hprev : ∀ p, (some 2 : Option ℕ) = some p →
      twoClusters.isCluster p = true ∧ twoClusters.entry (fun _ _ ↦ 0#8) p ≠ 0 := by
    rintro p ⟨⟩
    decide
  obtain ⟨-, hfull, hrun⟩ := alloc_and_count_agree sound_twoClusters (by decide) (by decide) hprev
  rcases hrun with ⟨v', ws, hrun, -⟩ | ⟨n, v', ws, hrun, hall⟩
  · rw [hrun] at hfull
    exact absurd (hfull.mp rfl 3 (by decide) (by decide)) (by decide)
  · have hn : n = 3 := by
      have h2 : twoClusters.entry (fun _ _ ↦ 0#8) 2 ≠ 0 := by decide
      obtain ⟨hmin, hmax⟩ := hall.cluster
      have hne : n ≠ 2 := fun heq ↦ h2 (heq ▸ hall.free)
      change n < 4 at hmax
      omega
    subst hn
    exact ⟨v', ws, hrun, hall⟩

end Vux9k
