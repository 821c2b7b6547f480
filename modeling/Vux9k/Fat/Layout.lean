import Vux9k.Fat.Removing

/-!
# Whose the clusters are

Every cluster in use belongs to one chain, or is lost.  `Disk.Layout` says it for a set of chains,
by their first clusters, and this module says what becomes of it when a chain is made, made longer
or given back.
-/

set_option autoImplicit false

namespace Vux9k

variable {g : Geometry} {d d' : Disk}

/-- The chains that start in `H` end, and no two share a cluster; the clusters in `lost` are in use
and in none of them, and all others are free. -/
structure Disk.Layout (g : Geometry) (d : Disk) (H lost : Set ℕ) : Prop where
  ends : ∀ h ∈ H, ∃ last, (d.chain g h).2 = .ok last
  apart : ∀ h ∈ H, ∀ k ∈ H, h ≠ k → ∀ n ∈ (d.chain g h).1, n ∉ (d.chain g k).1
  used : ∀ n, g.isCluster n = true →
    (d.entry n ≠ 0 ↔ n ∈ lost ∨ ∃ h ∈ H, n ∈ (d.chain g h).1)
  lost : ∀ n ∈ lost, ∀ h ∈ H, n ∉ (d.chain g h).1

/-! ## Chains -/

theorem Disk.entry_congr (h : d'.fat = d.fat) : d'.entry = d.entry :=
  funext fun n ↦ by rw [Disk.entry_eq, Disk.entry_eq, h]

theorem Disk.chain_congr (h : d'.fat = d.fat) : d'.chain g = d.chain g :=
  funext fun n ↦ by rw [Disk.chain, Disk.chain, Disk.entry_congr h]

/-- A chain that ends, as the list of its clusters. -/
theorem Disk.isChain_chain {first last : ℕ} (h : (d.chain g first).2 = .ok last) :
    ∃ ns, (d.chain g first).1 = first :: ns ∧ IsChain g d.entry (first :: ns) := by
  obtain ⟨ns, hns, hchain, -⟩ := isChain_of_ending h
  exact ⟨ns, hns, hchain⟩

/-- And the other way. -/
theorem Disk.chain_of_isChain (hg : g.Laid) {n : ℕ} {ns : List ℕ}
    (h : IsChain g d.entry (n :: ns)) :
    (d.chain g n).1 = n :: ns ∧ ∃ last, (d.chain g n).2 = .ok last := by
  have hlen := length_le_of_isCluster (h.nodup hg.toOk) h.isCluster_of_mem
  have hend := (hg.toOk.lt_eoc h.isCluster).2.1
  have hchain := @chainFrom_of_isChain _ hg.toOk _ _ _ g.clusterEnd h (by
    rw [List.length_cons] at hlen
    omega)
  rw [Disk.chain, hchain]
  exact ⟨rfl, _, rfl⟩

theorem Disk.first_mem_chain {first last : ℕ} (h : (d.chain g first).2 = .ok last) :
    first ∈ (d.chain g first).1 := by
  obtain ⟨ns, hns, -⟩ := Disk.isChain_chain h
  rw [hns]
  exact List.mem_cons_self

/-- What is left alone when a chain is given back. -/
theorem spares_cleared {ns : List ℕ} (hns : ∀ n ∈ ns, g.isCluster n = true)
    (hfat : d'.fat = cleared d.fat ns) (harea : d'.area = d.area) : d.Spares g (· ∈ ns) d' := by
  have hother : ∀ n, n ∉ ns → d'.fat n = d.fat n := fun n hn ↦ by rw [hfat, cleared, if_neg hn]
  refine ⟨fun n _ _ hn ↦ ⟨hother n hn, fun _ _ ↦ by rw [harea]⟩, fun n hn ↦ hother n fun h ↦ ?_,
    fun l j _ hne ↦ absurd (by rw [harea]) hne⟩
  rw [hns n h] at hn
  cases hn

theorem entry_cleared {ns : List ℕ} (hfat : d'.fat = cleared d.fat ns) (n : ℕ) :
    d'.entry n = if n ∈ ns then 0 else d.entry n := by
  rw [Disk.entry_eq, Disk.entry_eq, hfat, cleared]
  split
  · rw [bits_reserved _ (Nat.zero_le _)]
  · rfl

/-! ## What keeps the layout -/

section Layout

variable {H lost : Set ℕ} (h : d.Layout g H lost)
include h

theorem Disk.Layout.congr (hfat : d'.fat = d.fat) : d'.Layout g H lost where
  ends k hk := by
    rw [Disk.chain_congr hfat]
    exact h.ends k hk
  apart := by
    rw [Disk.chain_congr hfat]
    exact h.apart
  used := by
    rw [Disk.chain_congr hfat, Disk.entry_congr hfat]
    exact h.used
  lost := by
    rw [Disk.chain_congr hfat]
    exact h.lost

/-- The clusters of the chains are in use. -/
theorem Disk.Layout.of_mem (hg : g.Laid) {k n : ℕ} (hk : k ∈ H) (hn : n ∈ (d.chain g k).1) :
    g.isCluster n = true ∧ d.entry n ≠ 0 := by
  obtain ⟨last, hlast⟩ := h.ends k hk
  exact (Disk.chain_nodup hg hlast).2 n hn

theorem Disk.Layout.isCluster (hg : g.Laid) {k : ℕ} (hk : k ∈ H) :
    g.isCluster k = true ∧ d.entry k ≠ 0 := by
  obtain ⟨last, hlast⟩ := h.ends k hk
  exact h.of_mem hg hk (Disk.first_mem_chain hlast)

/-- A chain that is spared is as it was. -/
theorem Disk.Layout.chain_eq (hg : g.Laid) {S : ℕ → Prop} (hs : d.Spares g S d') {k : ℕ}
    (hk : k ∈ H)
    (hS : ∀ n ∈ (d.chain g k).1, ¬S n) : d'.chain g k = d.chain g k := by
  obtain ⟨last, hlast⟩ := h.ends k hk
  exact hs.chain_eq hg hlast hS

/-- **A chain made of free clusters** is one chain more. -/
theorem Disk.Layout.gained (hg : g.Laid) {n : ℕ} {ns : List ℕ} (hm : d.Gains g (n :: ns) d')
    (hs : d.Spares g (fun _ ↦ False) d') : d'.Layout g (insert n H) lost := by
  have hfree : ∀ m ∈ n :: ns, d.entry m = 0 := fun m hm' ↦ (Disk.mem_free.mp (hm.free m hm')).2
  have hold : ∀ k ∈ H, d'.chain g k = d.chain g k := fun k hk ↦
    h.chain_eq hg hs hk fun _ _ ↦ id
  obtain ⟨hnew, hend⟩ := Disk.chain_of_isChain hg (hm.isChain hg)
  have hother : ∀ m, m ∉ n :: ns → d'.entry m = d.entry m := fun m hm' ↦ by
    rw [Disk.entry_eq, Disk.entry_eq, hm.fat, linked_of_not_mem hm' (by simp)]
  have hnot : ∀ k ∈ H, ∀ m ∈ (d.chain g k).1, m ∉ n :: ns := fun k hk m hm' hmem ↦
    (h.of_mem hg hk hm').2 (hfree m hmem)
  refine ⟨fun k hk ↦ ?_, fun k hk l hl hne m hm' ↦ ?_, fun m hm' ↦ ?_, fun m hm' k hk hmem ↦ ?_⟩
  · rcases hk with rfl | hk
    · exact hend
    · rw [hold k hk]
      exact h.ends k hk
  · rcases hk with rfl | hk
    · rcases hl with rfl | hl
      · exact absurd rfl hne
      · rw [hnew] at hm'
        rw [hold l hl]
        exact fun hmem ↦ hnot l hl m hmem hm'
    · rw [hold k hk] at hm'
      rcases hl with rfl | hl
      · rw [hnew]
        exact hnot k hk m hm'
      · rw [hold l hl]
        exact h.apart k hk l hl hne m hm'
  · by_cases hmem : m ∈ n :: ns
    · refine iff_of_true (hm.used hg m hmem) (.inr ⟨n, Set.mem_insert n H, ?_⟩)
      rwa [hnew]
    · rw [hother m hmem, h.used m hm']
      refine or_congr_right ⟨fun ⟨k, hk, hkm⟩ ↦ ⟨k, Set.mem_insert_of_mem n hk, ?_⟩, ?_⟩
      · rwa [hold k hk]
      · rintro ⟨k, rfl | hk, hkm⟩
        · rw [hnew] at hkm
          exact absurd hkm hmem
        · rw [hold k hk] at hkm
          exact ⟨k, hk, hkm⟩
  · rcases hk with rfl | hk
    · rw [hnew] at hmem
      have hcluster := (Disk.mem_free.mp (hm.free m hmem)).1
      exact (h.used m hcluster).mpr (.inl hm') (hfree m hmem)
    · rw [hold k hk] at hmem
      exact h.lost m hm' k hk hmem

/-- **An entry added to a directory** takes at most free clusters, for the directory's own chain. -/
theorem Disk.Layout.added (hg : g.Laid) {first : ℕ} (hfirst : first ∈ H) {raw : List Byte}
    {slot : ℕ × ℕ} (ha : d.Added g first raw slot d') : d'.Layout g H lost := by
  have hold : ∀ k ∈ H, k ≠ first → d'.chain g k = d.chain g k := fun k hk hne ↦
    h.chain_eq hg ha.spares hk fun n hn ↦ h.apart k hk first hfirst hne n hn
  have hfresh : ∀ k ∈ H, k ≠ first → ∀ n ∈ (d.chain g k).1, n ∉ (d'.chain g first).1 := by
    intro k hk hne n hn hmem
    rcases ha.fresh n hmem with h' | h'
    · exact h.apart k hk first hfirst hne n hn h'
    · exact (h.of_mem hg hk hn).2 h'
  refine ⟨fun k hk ↦ ?_, fun k hk l hl hne n hn ↦ ?_, fun n hn ↦ ?_, fun n hn k hk hmem ↦ ?_⟩
  · by_cases hkf : k = first
    · rw [hkf]
      exact ha.tidy.ends
    · rw [hold k hk hkf]
      exact h.ends k hk
  · by_cases hkf : k = first
    · subst hkf
      rw [hold l hl (Ne.symm hne)]
      exact fun hmem ↦ hfresh l hl (Ne.symm hne) n hmem hn
    · rw [hold k hk hkf] at hn
      by_cases hlf : l = first
      · subst hlf
        exact hfresh k hk hkf n hn
      · rw [hold l hl hlf]
        exact h.apart k hk l hl hne n hn
  · rw [ha.used n hn, h.used n hn]
    constructor
    · rintro ((hlost | ⟨k, hk, hkn⟩) | hmem)
      · exact .inl hlost
      · by_cases hkf : k = first
        · subst hkf
          exact .inr ⟨k, hk, ha.kept n hkn⟩
        · exact .inr ⟨k, hk, by rwa [hold k hk hkf]⟩
      · exact .inr ⟨first, hfirst, hmem⟩
    · rintro (hlost | ⟨k, hk, hkn⟩)
      · exact .inl (.inl hlost)
      · by_cases hkf : k = first
        · subst hkf
          exact .inr hkn
        · rw [hold k hk hkf] at hkn
          exact .inl (.inr ⟨k, hk, hkn⟩)
  · by_cases hkf : k = first
    · subst hkf
      rcases ha.fresh n hmem with h' | h'
      · exact h.lost n hn k hk h'
      · obtain ⟨last, hlast⟩ := ha.tidy.ends
        have hcluster := ((Disk.chain_nodup hg hlast).2 n hmem).1
        exact (h.used n hcluster).mpr (.inl hn) h'
    · rw [hold k hk hkf] at hmem
      exact h.lost n hn k hk hmem

/-- **A chain given back** is free, and no other chain is touched. -/
theorem Disk.Layout.freed (hg : g.Laid) {first : ℕ} (hfirst : first ∈ H)
    (hfat : d'.fat = cleared d.fat (d.chain g first).1) : d'.Layout g (H \ {first}) lost := by
  have hspares : d.Spares g (· ∈ (d.chain g first).1) (⟨d'.fat, d.area, d.buf, d.dirty⟩ : Disk) :=
    spares_cleared (fun n hn ↦ (h.of_mem hg hfirst hn).1) hfat rfl
  have hold : ∀ k ∈ H \ {first}, d'.chain g k = d.chain g k := fun k hk ↦
    (Disk.chain_congr rfl : d'.chain g = _) ▸
      h.chain_eq hg hspares hk.1 fun n hn ↦ h.apart k hk.1 first hfirst hk.2 n hn
  refine ⟨fun k hk ↦ ?_, fun k hk l hl hne n hn ↦ ?_, fun n hn ↦ ?_, fun n hn k hk hmem ↦ ?_⟩
  · rw [hold k hk]
    exact h.ends k hk.1
  · rw [hold k hk] at hn
    rw [hold l hl]
    exact h.apart k hk.1 l hl.1 hne n hn
  · rw [entry_cleared hfat]
    by_cases hmem : n ∈ (d.chain g first).1
    · rw [if_pos hmem]
      refine iff_of_false (not_not.mpr rfl) ?_
      rintro (hlost | ⟨k, hk, hkn⟩)
      · exact h.lost n hlost first hfirst hmem
      · rw [hold k hk] at hkn
        exact h.apart k hk.1 first hfirst hk.2 n hkn hmem
    · rw [if_neg hmem, h.used n hn]
      refine or_congr_right ⟨fun ⟨k, hk, hkn⟩ ↦ ?_, fun ⟨k, hk, hkn⟩ ↦ ?_⟩
      · have hne : k ≠ first := fun heq ↦ hmem (heq ▸ hkn)
        exact ⟨k, ⟨hk, hne⟩, by rwa [hold k ⟨hk, hne⟩]⟩
      · rw [hold k hk] at hkn
        exact ⟨k, hk.1, hkn⟩
  · rw [hold k hk] at hmem
    exact h.lost n hn k hk.1 hmem

/-- As many clusters more are free. -/
theorem Disk.Layout.freed_card (hg : g.Laid) {first : ℕ} (hfirst : first ∈ H)
    (hfat : d'.fat = cleared d.fat (d.chain g first).1) :
    (d'.free g).card = (d.free g).card + (d.chain g first).1.length := by
  obtain ⟨last, hlast⟩ := h.ends first hfirst
  obtain ⟨hnodup, hall⟩ := Disk.chain_nodup hg hlast
  have hfree : d'.free g = d.free g ∪ (d.chain g first).1.toFinset := by
    ext n
    rw [Finset.mem_union, List.mem_toFinset, Disk.mem_free, Disk.mem_free, entry_cleared hfat]
    by_cases hn : n ∈ (d.chain g first).1
    · simp [hn, (hall n hn).1]
    · simp [hn]
  rw [hfree, Finset.card_union_of_disjoint, List.toFinset_card_of_nodup hnodup]
  rw [Finset.disjoint_left]
  exact fun n hn hmem ↦ (hall n (List.mem_toFinset.mp hmem)).2 (Disk.mem_free.mp hn).2

end Layout

end Vux9k
