import Desmos.Core.Bonding.Strategy
import Desmos.Library.Selection
import Desmos.Library.U64
import Desmos.Library.Xorshift

/-! # Weighted sampling

The loop of `Weighted::schedule` with every sum and every way out of it. On fewer than 2^32 links no
sum leaves the range, so the walk is the proportional draw: over the residues of the draw, each link
is taken as often as its weight says.
-/
namespace Desmos.Core
open Library

/-- The sum of the weights; `none` where a build with overflow checks stops. -/
def totalWeight (trap : Bool) (cumulative : UInt64) : List Link → Option UInt64
  | [] => some cumulative
  | link :: links =>
    match U64.add trap cumulative link.weight.toUInt64 with
    | none => none
    | some cumulative => totalWeight trap cumulative links

/-- The loop over the links, from position `i` on. It stops at a position, or at none of them, or
on an overflow. -/
def weightedScan (trap : Bool) (pick : UInt64) (i : ℕ) (cumulative : UInt64) :
    List Link → Option (Option ℕ)
  | [] => some none
  | link :: links =>
    match U64.add trap cumulative link.weight.toUInt64 with
    | none => none
    | some cumulative =>
      if pick < cumulative then some (some i) else weightedScan trap pick (i + 1) cumulative links

/-- `Weighted::schedule` on a target whose `usize` has `usizeBits` bits. -/
def weightedOf (trap : Bool) (usizeBits : ℕ) (rng : UInt64) (links : LinkTable) :
    Option (LinkSelection × UInt64) :=
  let healthy := links.healthy
  if healthy.isEmpty then some (.none, rng)
  else
    match totalWeight trap 0 healthy with
    | none => none
    | some total =>
      let draw := nextXorshift64 rng
      if total = 0 then
        some (selectAt healthy (draw.toNat % 2 ^ usizeBits % healthy.length), draw)
      else
        match weightedScan trap (draw % total) 0 0 healthy with
        | none => none
        | some (some i) => some (selectAt healthy i, draw)
        | some none => some (healthy.getLast?.elim .none .one, draw)

def weights (links : List Link) : List ℕ := links.map fun link => link.weight.toNat

section Sums
variable {trap : Bool} {cumulative pick : UInt64} {link : Link} {links : List Link}

theorem sum_weights_lt (h : links.length < 2 ^ 32) : (weights links).sum < 2 ^ 64 := by
  have hle : ∀ w ∈ weights links, w ≤ 2 ^ 32 - 1 := by
    rw [weights, List.forall_mem_map]
    exact fun link _ => Nat.le_sub_one_of_lt link.weight.toNat_lt
  have hsum := List.sum_le_card_nsmul (weights links) (2 ^ 32 - 1) hle
  rw [weights, List.length_map, smul_eq_mul] at hsum
  have hprod : links.length * (2 ^ 32 - 1) ≤ (2 ^ 32 - 1) * (2 ^ 32 - 1) :=
    Nat.mul_le_mul_right _ (by omega)
  rw [weights]
  omega

theorem add_weight (trap : Bool) (h : cumulative.toNat + (weights (link :: links)).sum < 2 ^ 64) :
    ∃ next, U64.add trap cumulative link.weight.toUInt64 = some next ∧
      next.toNat = cumulative.toNat + link.weight.toNat ∧
      next.toNat + (weights links).sum < 2 ^ 64 := by
  have hweight : link.weight.toUInt64.toNat = link.weight.toNat := UInt32.toNat_toUInt64 _
  have hsum : (weights (link :: links)).sum = link.weight.toNat + (weights links).sum := rfl
  have hadd : U64.add trap cumulative link.weight.toUInt64 = some _ :=
    U64.add_eq_some fun _ => by omega
  have hnat := U64.toNat_of_add hadd (Or.inr (by omega))
  exact ⟨_, hadd, by omega, by omega⟩

theorem totalWeight_eq (h : cumulative.toNat + (weights links).sum < 2 ^ 64) :
    ∃ total, totalWeight trap cumulative links = some total ∧
      total.toNat = cumulative.toNat + (weights links).sum := by
  induction links generalizing cumulative with
  | nil => exact ⟨cumulative, rfl, rfl⟩
  | cons link links ih =>
    obtain ⟨next, hadd, hnext, hfit⟩ := add_weight trap h
    obtain ⟨total, htotal, hsum⟩ := ih hfit
    refine ⟨total, by rw [totalWeight, hadd, ← htotal], ?_⟩
    rw [hsum, hnext, Nat.add_assoc]
    rfl

theorem weightedScan_eq {i : ℕ} (h : cumulative.toNat + (weights links).sum < 2 ^ 64)
    (hpick : cumulative.toNat ≤ pick.toNat) :
    weightedScan trap pick i cumulative links =
      some ((cumulativeIndex (pick.toNat - cumulative.toNat) (weights links)).map (i + ·)) := by
  induction links generalizing cumulative i with
  | nil => rfl
  | cons link links ih =>
    obtain ⟨next, hadd, hnext, hfit⟩ := add_weight trap h
    have hcons : weights (link :: links) = link.weight.toNat :: weights links := rfl
    rw [weightedScan, hadd, hcons, cumulativeIndex]
    by_cases hlt : pick < next
    · have hwithin := UInt64.lt_iff_toNat_lt.mp hlt
      rw [if_pos (by omega)]
      simp [hlt]
    · have hbeyond : next.toNat ≤ pick.toNat := UInt64.le_iff_toNat_le.mp (not_lt.mp hlt)
      have hrest : pick.toNat - cumulative.toNat - link.weight.toNat =
          pick.toNat - next.toNat := by omega
      rw [if_neg (by omega), hrest]
      simp only [hlt, if_false, ih hfit hbeyond, Option.map_map]
      congr 2
      funext k
      simp only [Function.comp]
      omega

end Sums

def xorshift (y : UInt64) : UInt64 :=
  let y := y ^^^ (y <<< 13)
  let y := y ^^^ (y >>> 7)
  y ^^^ (y <<< 17)

theorem xorshift_injective : Function.Injective xorshift := by
  have hfirst : Function.Injective fun y : UInt64 => y ^^^ (y <<< 13) :=
    word_shiftLeft_injective (by decide)
  have hsecond : Function.Injective fun y : UInt64 => y ^^^ (y >>> 7) :=
    word_shiftRight_injective (by decide)
  have hthird : Function.Injective fun y : UInt64 => y ^^^ (y <<< 17) :=
    word_shiftLeft_injective (by decide)
  exact hthird.comp (hsecond.comp hfirst)

theorem nextXorshift64_reaches {draw : UInt64} (h : draw ≠ 0) :
    ∃ rng, nextXorshift64 rng = draw := by
  obtain ⟨rng, hrng⟩ := word_surjective xorshift_injective draw
  have hne : rng ≠ 0 := by
    rintro rfl
    exact h (hrng.symm.trans (by decide))
  refine ⟨rng, ?_⟩
  rw [nextXorshift64, if_neg hne]
  exact hrng

section Schedule
variable {trap : Bool} {usizeBits : ℕ} {links : LinkTable} {total : UInt64}

theorem weightedOf_of_zero (hne : links.healthy ≠ [])
    (htotal : totalWeight trap 0 links.healthy = some 0) (rng : UInt64) :
    weightedOf trap usizeBits rng links = some (selectAt links.healthy
      ((nextXorshift64 rng).toNat % 2 ^ usizeBits % links.healthy.length), nextXorshift64 rng) := by
  simp [weightedOf, hne, htotal]

theorem weightedOf_of_scan (hne : links.healthy ≠ [])
    (htotal : totalWeight trap 0 links.healthy = some total) (hpos : total ≠ 0) {rng : UInt64}
    {i : ℕ} (hscan : weightedScan trap (nextXorshift64 rng % total) 0 0 links.healthy =
      some (some i)) :
    weightedOf trap usizeBits rng links = some (selectAt links.healthy i, nextXorshift64 rng) := by
  simp [weightedOf, hne, htotal, hpos, hscan]

end Schedule

/-- Of the residues that the draw is reduced to, each healthy link gets as many as its weight, no
residue ends in the fall-through or at a link without weight, and a packet goes to the link that the
residue of its draw stops at. -/
structure DrawsInProportion (trap : Bool) (usizeBits : ℕ) (links : LinkTable) : Prop where
  share : ∀ (i : ℕ) (link : Link), links.healthy[i]? = some link →
    ((Finset.range (weights links.healthy).sum).filter fun r =>
      weightedScan trap (UInt64.ofNat r) 0 0 links.healthy = some (some i)).card =
        link.weight.toNat
  stops : ∀ r < (weights links.healthy).sum, ∃ (i : ℕ) (link : Link),
    weightedScan trap (UInt64.ofNat r) 0 0 links.healthy = some (some i) ∧
    links.healthy[i]? = some link ∧ link.weight ≠ 0
  scheduled : ∀ rng, ∃ (i : ℕ) (link : Link),
    weightedScan trap (UInt64.ofNat ((nextXorshift64 rng).toNat % (weights links.healthy).sum)) 0 0
      links.healthy = some (some i) ∧
    links.healthy[i]? = some link ∧
    weightedOf trap usizeBits rng links = some (.one link, nextXorshift64 rng)

/-- The draw over healthy links without any weight reaches every position, and no other link. -/
structure DrawsUniformly (trap : Bool) (usizeBits : ℕ) (links : LinkTable) : Prop where
  reaches : ∀ (i : ℕ) (link : Link), links.healthy[i]? = some link → ∃ rng,
    (nextXorshift64 rng).toNat % 2 ^ usizeBits % links.healthy.length = i ∧
    weightedOf trap usizeBits rng links = some (.one link, nextXorshift64 rng)
  healthy : ∀ rng, ∃ link ∈ links.healthy,
    weightedOf trap usizeBits rng links = some (.one link, nextXorshift64 rng)

variable {l : List Link}

section Proportion
variable {trap : Bool} {usizeBits : ℕ} {links : LinkTable}

theorem getElem?_weights {i v : ℕ} (h : (weights l)[i]? = some v) :
    ∃ link, l[i]? = some link ∧ link.weight.toNat = v := by
  simpa [weights, Option.map_eq_some_iff] using h

/-- On a residue below the sum the scan is the walk over the weights. -/
theorem weightedScan_residue (hlen : l.length < 2 ^ 32) {r : ℕ}
    (hr : r < (weights l).sum) :
    weightedScan trap (UInt64.ofNat r) 0 0 l = some (cumulativeIndex r (weights l)) := by
  have hsum := sum_weights_lt hlen
  have hnat : (UInt64.ofNat r).toNat = r := by
    rw [UInt64.toNat_ofNat', Nat.mod_eq_of_lt (by omega)]
  have hzero : UInt64.toNat 0 = 0 := rfl
  rw [weightedScan_eq (by omega) (by omega), hnat]
  simp [hzero]

/-- Fewer than 2^32 weights have an exact sum. -/
theorem totalWeight_exact (trap : Bool) (hlen : l.length < 2 ^ 32) :
    ∃ total, totalWeight trap 0 l = some total ∧ total.toNat = (weights l).sum := by
  have hzero : UInt64.toNat 0 = 0 := rfl
  have hsum := sum_weights_lt hlen
  have hfit : UInt64.toNat 0 + (weights l).sum < 2 ^ 64 := by omega
  obtain ⟨total, htotal, hnat⟩ := totalWeight_eq hfit
  exact ⟨total, htotal, by omega⟩

theorem drawsInProportion (hne : links.healthy ≠ []) (hlen : links.healthy.length < 2 ^ 32)
    (hpos : 0 < (weights links.healthy).sum) : DrawsInProportion trap usizeBits links := by
  have hstops : ∀ r < (weights links.healthy).sum, ∃ (i : ℕ) (link : Link),
      weightedScan trap (UInt64.ofNat r) 0 0 links.healthy = some (some i) ∧
      links.healthy[i]? = some link ∧ link.weight ≠ 0 := by
    intro r hr
    obtain ⟨i, v, hi, hv, hweight⟩ := cumulativeIndex_of_lt hr
    obtain ⟨link, hlink, rfl⟩ := getElem?_weights hv
    refine ⟨i, link, by rw [weightedScan_residue hlen hr, hi], hlink, ?_⟩
    rintro hzero
    rw [hzero] at hweight
    exact absurd hweight (by decide)
  constructor
  · intro i link hlink
    have hshare : (weights links.healthy)[i]? = some link.weight.toNat := by
      rw [weights, List.getElem?_map, hlink, Option.map_some]
    rw [← count_cumulativeIndex hshare, Nat.count_eq_card_filter_range]
    congr 1
    apply Finset.filter_congr
    intro r hr
    rw [weightedScan_residue hlen (Finset.mem_range.mp hr), Option.some_inj]
  · exact hstops
  · intro rng
    obtain ⟨total, htotal, hnat⟩ := totalWeight_exact trap hlen
    obtain ⟨i, link, hscan, hlink, -⟩ := hstops _ (Nat.mod_lt (nextXorshift64 rng).toNat hpos)
    refine ⟨i, link, hscan, hlink, ?_⟩
    have hdraw : UInt64.ofNat ((nextXorshift64 rng).toNat % (weights links.healthy).sum) =
        nextXorshift64 rng % total := by
      rw [← hnat, ← UInt64.toNat_mod, UInt64.ofNat_toNat]
    have htotal' : total ≠ 0 := by
      rintro rfl
      exact hpos.ne hnat
    rw [hdraw] at hscan
    rw [weightedOf_of_scan hne htotal htotal' hscan, selectAt_of_getElem? hlink]

theorem drawsUniformly (hbits : 32 ≤ usizeBits) (hne : links.healthy ≠ [])
    (hlen : links.healthy.length < 2 ^ 32) (hzero : (weights links.healthy).sum = 0) :
    DrawsUniformly trap usizeBits links := by
  have hpos := List.length_pos_of_ne_nil hne
  obtain ⟨total, htotal, hnat⟩ := totalWeight_exact trap hlen
  obtain rfl : total = 0 := UInt64.toNat_inj.mp (hnat.trans hzero)
  constructor
  · intro i link hlink
    obtain ⟨hi, -⟩ := List.getElem?_eq_some_iff.mp hlink
    -- the first position needs a draw other than zero
    obtain ⟨d, hd0, hd, hmod⟩ : ∃ d, d ≠ 0 ∧ d < 2 ^ 32 ∧ d % links.healthy.length = i := by
      rcases Nat.eq_zero_or_pos i with rfl | hi0
      · exact ⟨links.healthy.length, hpos.ne', hlen, Nat.mod_self _⟩
      · exact ⟨i, hi0.ne', by omega, Nat.mod_eq_of_lt hi⟩
    have hword : (UInt64.ofNat d).toNat = d := by
      rw [UInt64.toNat_ofNat', Nat.mod_eq_of_lt (by omega)]
    have hword0 : UInt64.ofNat d ≠ 0 := fun h => hd0 (by rw [← hword, h]; rfl)
    obtain ⟨rng, hrng⟩ := nextXorshift64_reaches hword0
    have hposition : (nextXorshift64 rng).toNat % 2 ^ usizeBits % links.healthy.length = i := by
      rw [hrng, hword, Nat.mod_eq_of_lt (hd.trans_le (Nat.pow_le_pow_right (by decide) hbits)), hmod]
    refine ⟨rng, hposition, ?_⟩
    rw [weightedOf_of_zero hne htotal, hposition, selectAt_of_getElem? hlink]
  · intro rng
    obtain ⟨link, hmem, hget⟩ := getElem?_mod_length hne
      ((nextXorshift64 rng).toNat % 2 ^ usizeBits)
    exact ⟨link, hmem, by rw [weightedOf_of_zero hne htotal, selectAt_of_getElem? hget]⟩

end Proportion

/-! The engine is modelled with a walk that gives the last link what is left over, on 64 bits and
with sums that wrap. On fewer than 2^32 links it is this loop. -/

section Engine
variable {trap : Bool} {links : LinkTable}

theorem eq_of_totalWeight {cumulative total : UInt64}
    (h : totalWeight trap cumulative l = some total) :
    total = cumulative + (l.map fun link => link.weight.toUInt64).sum := by
  induction l generalizing cumulative with
  | nil =>
    cases h
    simp
  | cons link l ih =>
    rw [totalWeight] at h
    cases hadd : U64.add trap cumulative link.weight.toUInt64 with
    | none => simp [hadd] at h
    | some next =>
      simp only [hadd] at h
      rw [ih h, U64.eq_of_add hadd, List.map_cons, List.sum_cons, UInt64.add_assoc]

theorem weightedWalk_eq {pick cumulative : UInt64} {i : ℕ}
    (h : cumulative.toNat + (weights l).sum < 2 ^ 64) (hpick : cumulative.toNat ≤ pick.toNat)
    (hi : cumulativeIndex (pick.toNat - cumulative.toNat) (weights l) = some i) :
    weightedWalk pick cumulative l = selectAt l i := by
  induction l generalizing cumulative i with
  | nil => cases hi
  | cons link l ih =>
    have hcons : weights (link :: l) = link.weight.toNat :: weights l := rfl
    rw [hcons, cumulativeIndex] at hi
    obtain ⟨next, hadd, hnext, hfit⟩ := add_weight false h
    obtain rfl := U64.eq_of_add hadd
    by_cases hwithin : pick.toNat - cumulative.toNat < link.weight.toNat
    · obtain rfl : 0 = i := by simpa [hwithin] using hi
      have hlt : pick < cumulative + link.weight.toUInt64 := UInt64.lt_iff_toNat_lt.mpr (by omega)
      cases l with
      | nil => rfl
      | cons other l =>
        rw [weightedWalk, if_pos hlt]
        · rfl
        · exact List.cons_ne_nil _ _
    · rw [if_neg hwithin] at hi
      obtain ⟨j, hj, rfl⟩ := Option.map_eq_some_iff.mp hi
      have hbeyond : cumulative.toNat + link.weight.toNat ≤ pick.toNat := by omega
      have hge : ¬ pick < cumulative + link.weight.toUInt64 := by
        rw [UInt64.lt_iff_toNat_lt]
        omega
      have hrest : pick.toNat - cumulative.toNat - link.weight.toNat =
          pick.toNat - (cumulative + link.weight.toUInt64).toNat := by omega
      rw [hrest] at hj
      cases l with
      | nil => cases hj
      | cons other l =>
        rw [weightedWalk, if_neg hge, ih hfit (by omega) hj]
        · rfl
        · exact List.cons_ne_nil _ _

/-- The residue of a draw is below the sum, so that the scan stops at a position. -/
theorem weightedScan_draw (hlen : l.length < 2 ^ 32) {total : UInt64}
    (htotal : totalWeight trap 0 l = some total) (hpos : total ≠ 0) (draw : UInt64) :
    ∃ i, cumulativeIndex (draw % total).toNat (weights l) = some i ∧
      weightedScan trap (draw % total) 0 0 l = some (some i) := by
  obtain ⟨total', htotal', hnat⟩ := totalWeight_exact trap hlen
  obtain rfl : total = total' := Option.some.inj (htotal.symm.trans htotal')
  have hsum : 0 < (weights l).sum :=
    hnat ▸ Nat.pos_of_ne_zero fun h => hpos (UInt64.toNat_inj.mp h)
  have hpick : (draw % total).toNat < (weights l).sum := by
    rw [UInt64.toNat_mod, hnat]
    exact Nat.mod_lt _ hsum
  obtain ⟨i, v, hi, -, -⟩ := cumulativeIndex_of_lt hpick
  refine ⟨i, hi, ?_⟩
  rw [← hi, ← weightedScan_residue hlen hpick, UInt64.ofNat_toNat]

/-- The loop is the draw of the engine, and its walk never gets to the end without a link. -/
theorem weightedOf_eq_schedule (trap : Bool) (rng : UInt64) (packet : PacketMeta)
    (hlen : links.healthy.length < 2 ^ 32) :
    weightedOf trap 64 rng links = some ((weighted rng).schedule rng packet links) ∧
    ∀ total, totalWeight trap 0 links.healthy = some total → total ≠ 0 →
      ∃ i, weightedScan trap (nextXorshift64 rng % total) 0 0 links.healthy = some (some i) := by
  constructor
  · by_cases hne : links.healthy = []
    · simp [weightedOf, weighted, hne]
    obtain ⟨total, htotal, hnat⟩ := totalWeight_exact trap hlen
    have hsum : (links.healthy.map fun link => link.weight.toUInt64).sum = total := by
      simpa using (eq_of_totalWeight htotal).symm
    have hword : (nextXorshift64 rng).toNat % 2 ^ 64 = (nextXorshift64 rng).toNat :=
      Nat.mod_eq_of_lt (nextXorshift64 rng).toNat_lt
    by_cases hzero : total = 0
    · subst hzero
      obtain ⟨link, -, hget⟩ := getElem?_mod_length hne (nextXorshift64 rng).toNat
      rw [weightedOf_of_zero hne htotal, hword, selectAt_of_getElem? hget]
      simp [weighted, hne, hsum, uniformPick, hget]
    · have hfit : UInt64.toNat 0 + (weights links.healthy).sum < 2 ^ 64 := by
        simpa using sum_weights_lt hlen
      obtain ⟨i, hi, hscan⟩ := weightedScan_draw hlen htotal hzero (nextXorshift64 rng)
      have hwalk : weightedWalk (nextXorshift64 rng % total) 0 links.healthy =
          selectAt links.healthy i := weightedWalk_eq hfit (Nat.zero_le _) (by simpa using hi)
      rw [weightedOf_of_scan hne htotal hzero hscan]
      simp [weighted, hne, hsum, hzero, hwalk]
  · intro total htotal hpos
    obtain ⟨i, -, hscan⟩ := weightedScan_draw hlen htotal hpos (nextXorshift64 rng)
    exact ⟨i, hscan⟩

end Engine

/-- In either build and on targets with 32 or 64 bits, sampling among healthy links is exactly
proportional to their weights: no sum leaves the range, every link gets its share, and links without
any weight are still drawn from, all of them and no others. -/
theorem weighted_exactly_proportional (trap : Bool) (usizeBits : ℕ)
    (hbits : usizeBits = 32 ∨ usizeBits = 64) (links : LinkTable) (hne : links.healthy ≠ [])
    (hlen : links.healthy.length < 2 ^ 32) :
    (∃ total, totalWeight trap 0 links.healthy = some total ∧
      total.toNat = (weights links.healthy).sum) ∧
    (0 < (weights links.healthy).sum → DrawsInProportion trap usizeBits links) ∧
    ((weights links.healthy).sum = 0 → DrawsUniformly trap usizeBits links) :=
  ⟨totalWeight_exact trap hlen, drawsInProportion hne hlen,
    drawsUniformly (by omega) hne hlen⟩

namespace Sample

/-- Two links of weights 3 and 1, and one without weight between them. -/
def unequalLinks : LinkTable :=
  ⟨[.new 1 "eth0" ⟨.v4 #v[10, 0, 0, 3], 51820⟩ 3, .new 2 "wlan0" ⟨.v4 #v[10, 0, 0, 3], 51820⟩ 0,
    .new 3 "lte0" ⟨.v4 #v[10, 0, 0, 3], 51820⟩ 1]⟩

end Sample

theorem unequal_links_scheduled : weightedOf true 64 7 Sample.unequalLinks =
    some ((weighted 7).schedule (7 : UInt64) (.outbound 0 0) Sample.unequalLinks) :=
  (@weightedOf_eq_schedule Sample.unequalLinks true 7 (.outbound 0 0) (by decide)).1

theorem weighted_exactly_proportional_sample :
    DrawsInProportion true 32 Sample.unequalLinks ∧
    (List.range 4).map (fun r => weightedScan true (UInt64.ofNat r) 0 0 Sample.unequalLinks.healthy) =
      [some (some 0), some (some 0), some (some 0), some (some 2)] :=
  ⟨(weighted_exactly_proportional true 32 (Or.inl rfl) Sample.unequalLinks (by decide)
    (by decide)).2.1 (by decide), by decide⟩

end Desmos.Core
