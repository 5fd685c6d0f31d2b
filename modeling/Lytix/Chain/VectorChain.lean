import Lytix.Chain.SkipList
import Lytix.Lib.Runs

/-! `CChain`, the vector with the entries from the genesis block to a tip. `SetTip` writes it from
the tip down to the first entry that is in its place already. -/
namespace Lytix
open Ancestry SkipLists

structure CChain where
  vChain : List (Option Uint256) := []

namespace CChain

/-- `std::vector::resize`, with null pointers behind the old end. -/
def resize (vChain : List (Option Uint256)) (n : ℕ) : List (Option Uint256) :=
  vChain.take n ++ List.replicate (n - vChain.length) none

variable (s : ChainState) (chain : CChain)

/-- `operator[]`. -/
def entryAt (nHeight : Int) : Option Uint256 :=
  if nHeight < 0 ∨ (chain.vChain.length : Int) ≤ nHeight then none
  else chain.vChain[nHeight.toNat]?.join

def tip : Option Uint256 := chain.vChain.getLast?.join

def height : Int := (chain.vChain.length : Int) - 1

def contains (pindex : Uint256) : Bool :=
  chain.entryAt (s.index pindex).nHeight == some pindex

/-- The loop of `SetTip`. It has no result if it reads outside the vector, or does not end in the
rounds given. -/
def fill : ℕ → Option Uint256 → List (Option Uint256) → Option (List (Option Uint256))
  | _, none, vChain => some vChain
  | 0, some _, _ => none
  | rounds + 1, some pindex, vChain =>
    vChain[(s.index pindex).nHeight]?.bind fun held =>
      if held = some pindex then some vChain
      else fill rounds (s.pprev pindex) (vChain.set (s.index pindex).nHeight (some pindex))

def setTip (pindex : Option Uint256) : Option CChain :=
  match pindex with
  | none => some ⟨[]⟩
  | some pindex =>
    (fill s ((s.index pindex).nHeight + 1) (some pindex)
      (resize chain.vChain ((s.index pindex).nHeight + 1))).map CChain.mk

/-- The loop of `GetLocator`. A step above one is less than what the walk went down before, so it
fits an `int` as the heights do. -/
def locate : ℕ → Int → List Uint256 → Option Uint256 → Option (List Uint256)
  | _, _, vHave, none => some vHave
  | 0, _, _, some _ => none
  | rounds + 1, nStep, vHave, some pindex =>
    let vHave := vHave ++ [pindex]
    -- Stop when we have added the genesis block.
    if (s.index pindex).nHeight = 0 then some vHave
    else
      -- Exponentially larger steps back, plus the genesis block.
      let nHeight := max ((s.index pindex).nHeight - nStep) 0
      let next := if chain.contains s pindex then chain.entryAt nHeight
        else s.getAncestor pindex nHeight.toNat
      locate rounds (if 10 < vHave.length then nStep * 2 else nStep) vHave next

/-- `GetLocator`, by default from the tip. -/
def getLocator (pindex : Option Uint256) : Option (List Uint256) :=
  let start := pindex.or chain.tip
  locate s chain ((start.map fun x => (s.index x).nHeight + 1).getD 0) 1 [] start

/-- The loop of `FindFork`. -/
def backToChain : ℕ → Option Uint256 → Option (Option Uint256)
  | _, none => some none
  | 0, some _ => none
  | rounds + 1, some pindex =>
    if chain.contains s pindex then some (some pindex) else backToChain rounds (s.pprev pindex)

/-- `FindFork`, with null as `some none`. -/
def findFork (pindex : Uint256) : Option (Option Uint256) :=
  let start :=
    if chain.height < (s.index pindex).nHeight then
      if chain.height < 0 then none else s.getAncestor pindex chain.height.toNat
    else some pindex
  backToChain s chain ((s.index pindex).nHeight + 1) start

/-- The vector holds the ancestors of a tip, each at its height. -/
structure LeadsTo (t : Uint256) : Prop where
  mem : t ∈ s.mapBlockIndex
  length : chain.vChain.length = (s.index t).nHeight + 1
  entry : ∀ h ≤ (s.index t).nHeight,
    chain.vChain[h]? = some (up s.pprev ((s.index t).nHeight - h) t)

/-- The vector is empty or leads to a tip. -/
def Whole : Prop := chain.vChain = [] ∨ ∃ t, LeadsTo s chain t

/-- Up to a height, an entry stands on its ancestors. -/
def Stacked (vChain : List (Option Uint256)) (bound : ℕ) : Prop :=
  ∀ h ≤ bound, ∀ x, vChain[h]? = some (some x) →
    x ∈ s.mapBlockIndex ∧ (s.index x).nHeight = h ∧
      ∀ j ≤ h, vChain[j]? = some (up s.pprev (h - j) x)

section
variable {s : ChainState} {chain : CChain} {t x p a b : Uint256} {rounds : ℕ}
  {vChain : List (Option Uint256)}

theorem length_resize (n : ℕ) : (resize vChain n).length = n := by
  simp only [resize, List.length_append, List.length_take, List.length_replicate]
  omega

theorem getElem?_resize {n h : ℕ} (hx : (resize vChain n)[h]? = some (some x)) :
    h < n ∧ vChain[h]? = some (some x) := by
  have hlt := (List.getElem?_eq_some_iff.mp hx).1
  rw [length_resize] at hlt
  refine ⟨hlt, ?_⟩
  unfold resize at hx
  by_cases hin : h < vChain.length
  · rw [List.getElem?_append_left (by rw [List.length_take]; omega),
      List.getElem?_take_of_lt hlt] at hx
    exact hx
  · rw [List.getElem?_append_right (by rw [List.length_take]; omega)] at hx
    have hnone := List.eq_of_mem_replicate (List.mem_of_getElem? hx)
    contradiction

theorem getElem?_resize_of_lt {n h : ℕ} (hn : h < n) (hlt : h < vChain.length) :
    (resize vChain n)[h]? = vChain[h]? := by
  unfold resize
  rw [List.getElem?_append_left (by rw [List.length_take]; omega), List.getElem?_take_of_lt hn]

/-! The chain of a tip. -/

theorem LeadsTo.up_eq (leads : LeadsTo s chain t) {h : ℕ} (hh : h ≤ (s.index t).nHeight) :
    chain.entryAt h = up s.pprev ((s.index t).nHeight - h) t := by
  have hlength := leads.length
  unfold entryAt
  rw [if_neg (by omega), Int.toNat_natCast, leads.entry h hh]
  rfl

theorem LeadsTo.tip_eq (leads : LeadsTo s chain t) : chain.tip = some t := by
  unfold tip
  rw [List.getLast?_eq_getElem?, leads.length, Nat.add_sub_cancel, leads.entry _ le_rfl, Nat.sub_self]
  rfl

theorem LeadsTo.contains_iff (leads : LeadsTo s chain t) (skips : s.Skips) :
    chain.contains s x = true ↔ IsAncestor s.pprev x t := by
  rw [skips.isAncestor_iff leads.mem, contains, beq_iff_eq]
  constructor
  · intro hx
    have hle : (s.index x).nHeight ≤ (s.index t).nHeight := by
      by_contra hlt
      have hlength := leads.length
      rw [entryAt, if_pos (by omega)] at hx
      contradiction
    rw [leads.up_eq hle] at hx
    exact ⟨hle, hx⟩
  · rintro ⟨hle, hx⟩
    rw [leads.up_eq hle]
    exact hx

theorem LeadsTo.stacked (leads : LeadsTo s chain t) (skips : s.Skips) :
    Stacked s chain.vChain (s.index t).nHeight := by
  intro h hh x hx
  rw [leads.entry h hh] at hx
  have hup := Option.some.inj hx
  obtain ⟨hmem, hsum⟩ := skips.of_up leads.mem hup
  have hheight : (s.index x).nHeight = h := by omega
  refine ⟨hmem, hheight, ?_⟩
  intro j hj
  have hback := skips.up_of_up leads.mem hup (show j ≤ (s.index x).nHeight by omega)
  rw [leads.entry j (by omega), ← hback, hheight]

/-! `SetTip`. -/

theorem Whole.stacked_resize (whole : Whole s chain) (skips : s.Skips) (n bound : ℕ) :
    Stacked s (resize chain.vChain n) bound := by
  intro h _ x hx
  obtain ⟨hlt, hold⟩ := getElem?_resize hx
  rcases whole with hempty | ⟨t, leads⟩
  · rw [hempty] at hold
    contradiction
  · have hin := (List.getElem?_eq_some_iff.mp hold).1
    have hlength := leads.length
    obtain ⟨hmem, hheight, hbelow⟩ := leads.stacked skips h (by omega) x hold
    refine ⟨hmem, hheight, ?_⟩
    intro j hj
    rw [getElem?_resize_of_lt (by omega) (by omega)]
    exact hbelow j hj

/-- What is written above a height leaves what stands on its ancestors up to there. -/
theorem Stacked.set_above {bound n k : ℕ} {held : Option Uint256} (stacked : Stacked s vChain bound)
    (hn : n ≤ bound) (hk : n < k) : Stacked s (vChain.set k held) n := by
  have hkept (j : ℕ) (hj : j ≤ n) : (vChain.set k held)[j]? = vChain[j]? :=
    List.getElem?_set_ne (by omega)
  intro h hh y hy
  rw [hkept h hh] at hy
  obtain ⟨hymem, hyheight, hbelow⟩ := stacked h (by omega) y hy
  refine ⟨hymem, hyheight, ?_⟩
  intro j hj
  rw [hkept j (by omega)]
  exact hbelow j hj

/-- Where an ancestor of the tip is in its place, the chain below it is there already. -/
theorem leadsTo_of_held (skips : s.Skips) (ht : t ∈ s.mapBlockIndex) (hx : IsAncestor s.pprev x t)
    (hlength : vChain.length = (s.index t).nHeight + 1)
    (hupper : ∀ h, (s.index x).nHeight < h → h ≤ (s.index t).nHeight →
      vChain[h]? = some (up s.pprev ((s.index t).nHeight - h) t))
    (hlower : Stacked s vChain (s.index x).nHeight)
    (hplace : vChain[(s.index x).nHeight]? = some (some x)) : LeadsTo s ⟨vChain⟩ t := by
  obtain ⟨hle, hup⟩ := (skips.isAncestor_iff ht).mp hx
  refine ⟨ht, hlength, ?_⟩
  intro h hh
  by_cases habove : (s.index x).nHeight < h
  · exact hupper h habove hh
  · obtain ⟨-, -, hbelow⟩ := hlower _ le_rfl x hplace
    have hback := skips.up_of_up ht hup (not_lt.mp habove)
    rw [hbelow h (by omega), hback]

/-- The loop writes the chain of the tip down to an entry that is in its place, and below that is
the chain already. -/
theorem fill_eq (skips : s.Skips) (ht : t ∈ s.mapBlockIndex) (hx : IsAncestor s.pprev x t)
    (hrounds : (s.index x).nHeight < rounds) (hlength : vChain.length = (s.index t).nHeight + 1)
    (hupper : ∀ h, (s.index x).nHeight < h → h ≤ (s.index t).nHeight →
      vChain[h]? = some (up s.pprev ((s.index t).nHeight - h) t))
    (hlower : Stacked s vChain (s.index x).nHeight) :
    ∃ filled, fill s rounds (some x) vChain = some filled ∧ LeadsTo s ⟨filled⟩ t := by
  induction rounds generalizing x vChain with
  | zero => omega
  | succ rounds ih =>
    obtain ⟨hle, hup⟩ := (skips.isAncestor_iff ht).mp hx
    have hmem := skips.mem_of_isAncestor ht hx
    have hlt : (s.index x).nHeight < vChain.length := by omega
    rw [fill, List.getElem?_eq_getElem hlt, Option.bind_some]
    by_cases hheld : vChain[(s.index x).nHeight] = some x
    · rw [if_pos hheld]
      have hplace : vChain[(s.index x).nHeight]? = some (some x) := by
        rw [List.getElem?_eq_getElem hlt, hheld]
      exact ⟨vChain, rfl, leadsTo_of_held skips ht hx hlength hupper hlower hplace⟩
    · rw [if_neg hheld]
      have hset : ∀ h, (s.index x).nHeight ≤ h → h ≤ (s.index t).nHeight →
          (vChain.set (s.index x).nHeight (some x))[h]? =
            some (up s.pprev ((s.index t).nHeight - h) t) := by
        intro h hh hht
        by_cases heq : (s.index x).nHeight = h
        · rw [← heq, List.getElem?_set_self hlt]
          exact congrArg some hup.symm
        · rw [List.getElem?_set_ne heq]
          exact hupper h (by omega) hht
      cases hparent : s.pprev x with
      | none =>
        have hroot := skips.root x hmem hparent
        refine ⟨vChain.set (s.index x).nHeight (some x), by rw [fill], ht, ?_, ?_⟩
        · rw [List.length_set]
          exact hlength
        · intro h hh
          exact hset h (by omega) hh
      | some p =>
        obtain ⟨-, hheight⟩ := skips.parent_mem x hmem p hparent
        apply ih ((IsAncestor.of_parent hparent).trans hx) (by omega)
        · rw [List.length_set]
          exact hlength
        · intro h hh hht
          exact hset h (by omega) hht
        · exact hlower.set_above (by omega) (by omega)

/-- `SetTip` makes the vector the chain of the tip that it is given. -/
theorem Whole.setTip (whole : Whole s chain) (skips : s.Skips) (ht : t ∈ s.mapBlockIndex) :
    ∃ filled, chain.setTip s (some t) = some filled ∧ LeadsTo s filled t := by
  have habove : ∀ h, (s.index t).nHeight < h → h ≤ (s.index t).nHeight →
      (resize chain.vChain ((s.index t).nHeight + 1))[h]? =
        some (up s.pprev ((s.index t).nHeight - h) t) := by
    intro h hlt hle
    omega
  obtain ⟨filled, hfill, leads⟩ := fill_eq skips ht (IsAncestor.refl _ _) (Nat.lt_succ_self _)
    (length_resize _) habove (whole.stacked_resize skips _ _)
  refine ⟨⟨filled⟩, ?_, leads⟩
  rw [CChain.setTip]
  rw [hfill]
  rfl

/-! `FindFork`. -/

/-- The way back from an entry ends where it meets the chain, at the highest ancestor that the tip
has, too. -/
theorem LeadsTo.backToChain (leads : LeadsTo s chain t) (skips : s.Skips) (hx : x ∈ s.mapBlockIndex)
    (hmeet : ∃ a, IsAncestor s.pprev a x ∧ IsAncestor s.pprev a t)
    (hrounds : (s.index x).nHeight < rounds) :
    ∃ fork, CChain.backToChain s chain rounds (some x) = some (some fork) ∧
      IsAncestor s.pprev fork x ∧ IsAncestor s.pprev fork t ∧
        ∀ b, IsAncestor s.pprev b x → IsAncestor s.pprev b t → IsAncestor s.pprev b fork := by
  induction rounds generalizing x with
  | zero => omega
  | succ rounds ih =>
    rw [CChain.backToChain]
    by_cases hon : chain.contains s x = true
    · rw [if_pos hon]
      exact ⟨x, rfl, IsAncestor.refl _ _, (leads.contains_iff skips).mp hon, fun b hb _ => hb⟩
    · rw [if_neg hon]
      have hpass : ∀ b, IsAncestor s.pprev b x → IsAncestor s.pprev b t →
          ∃ p, s.pprev x = some p ∧ IsAncestor s.pprev b p := by
        intro b hb hbt
        rcases ChainState.isAncestor_cases hb with rfl | hparent
        · exact absurd ((leads.contains_iff skips).mpr hbt) hon
        · exact hparent
      obtain ⟨a, hax, hat⟩ := hmeet
      obtain ⟨p, hparent, hap⟩ := hpass a hax hat
      obtain ⟨hp, hheight⟩ := skips.parent_mem x hx p hparent
      rw [hparent]
      obtain ⟨fork, hback, hfork, hforkt, hhighest⟩ := ih hp ⟨a, hap, hat⟩ (by omega)
      refine ⟨fork, hback, hfork.trans (IsAncestor.of_parent hparent), hforkt, ?_⟩
      intro b hb hbt
      obtain ⟨p', hparent', hbp⟩ := hpass b hb hbt
      rw [Option.some.inj (hparent'.symm.trans hparent)] at hbp
      exact hhighest b hbp hbt

theorem LeadsTo.findFork (leads : LeadsTo s chain t) (skips : s.Skips) (hp : p ∈ s.mapBlockIndex)
    (hmeet : ∃ a, IsAncestor s.pprev a p ∧ IsAncestor s.pprev a t) :
    ∃ fork, chain.findFork s p = some (some fork) ∧
      IsAncestor s.pprev fork p ∧ IsAncestor s.pprev fork t ∧
        ∀ b, IsAncestor s.pprev b p → IsAncestor s.pprev b t → IsAncestor s.pprev b fork := by
  have hlength := leads.length
  unfold CChain.findFork height
  by_cases habove : (s.index t).nHeight < (s.index p).nHeight
  · obtain ⟨x, hup, hx, hsum⟩ :=
      skips.up_exists hp (Nat.sub_le (s.index p).nHeight (s.index t).nHeight)
    have hxp := isAncestor_iff_up.mpr ⟨_, hup⟩
    -- a common ancestor is not above the tip
    have hbelow : ∀ b, IsAncestor s.pprev b p → IsAncestor s.pprev b t → IsAncestor s.pprev b x := by
      intro b hb hbt
      have hle := ((skips.isAncestor_iff leads.mem).mp hbt).1
      exact skips.isAncestor_of_le hp hb hxp (by omega)
    have hlevel : ((chain.vChain.length : Int) - 1).toNat = (s.index t).nHeight := by omega
    rw [if_pos (by omega), if_neg (by omega), hlevel, skips.getAncestor_eq hp habove.le, hup]
    obtain ⟨a, hap, hat⟩ := hmeet
    obtain ⟨fork, hback, hfork, hforkt, hhighest⟩ :=
      leads.backToChain skips hx ⟨a, hbelow a hap hat, hat⟩
        (show (s.index x).nHeight < (s.index p).nHeight + 1 by omega)
    exact ⟨fork, hback, hfork.trans hxp, hforkt, fun b hb hbt => hhighest b (hbelow b hb hbt) hbt⟩
  · rw [if_neg (by omega)]
    exact leads.backToChain skips hp hmeet (Nat.lt_succ_self _)

/-! `GetLocator`. -/

/-- A list of ancestors of an entry that starts with it, descends, and ends at the bottom. -/
structure Locates (s : ChainState) (p : Uint256) (vHave : List Uint256) : Prop where
  first : vHave.head? = some p
  ancestors : ∀ a ∈ vHave, IsAncestor s.pprev a p
  descending : vHave.Pairwise fun a b => (s.index b).nHeight < (s.index a).nHeight
  last : ∃ root, vHave.getLast? = some root ∧ s.pprev root = none

/-- The next entry is the ancestor at its height, on the chain or off it. -/
theorem Whole.next_eq (whole : Whole s chain) (skips : s.Skips) (hx : x ∈ s.mapBlockIndex)
    {h : ℕ} (hh : h ≤ (s.index x).nHeight) :
    (if chain.contains s x = true then chain.entryAt h else s.getAncestor x h) =
      up s.pprev ((s.index x).nHeight - h) x := by
  by_cases hon : chain.contains s x = true
  · rcases whole with hempty | ⟨t, leads⟩
    · rw [contains, entryAt, hempty, if_pos (by simp)] at hon
      contradiction
    · have hxt := (leads.contains_iff skips).mp hon
      obtain ⟨hle, hup⟩ := (skips.isAncestor_iff leads.mem).mp hxt
      rw [if_pos hon, leads.up_eq (hh.trans hle)]
      exact (skips.up_of_up leads.mem hup hh).symm
  · rw [if_neg hon, skips.getAncestor_eq hx hh]

theorem Whole.locate (whole : Whole s chain) (skips : s.Skips) (hx : x ∈ s.mapBlockIndex)
    (hrounds : (s.index x).nHeight < rounds) {nStep : Int} (hstep : 0 < nStep)
    (vHave : List Uint256) :
    ∃ rest, CChain.locate s chain rounds nStep vHave (some x) = some (vHave ++ rest) ∧
      Locates s x rest := by
  induction rounds generalizing x nStep vHave with
  | zero => omega
  | succ rounds ih =>
    rw [CChain.locate]
    by_cases hbottom : (s.index x).nHeight = 0
    · have hroot : s.pprev x = none := by
        cases hparent : s.pprev x with
        | none => rfl
        | some p =>
          have hheight := (skips.parent_mem x hx p hparent).2
          omega
      rw [if_pos hbottom]
      refine ⟨[x], rfl, rfl, ?_, List.pairwise_singleton _ _, x, rfl, hroot⟩
      intro a ha
      rw [List.mem_singleton.mp ha]
      exact IsAncestor.refl _ _
    · obtain ⟨h, hh⟩ := Int.eq_ofNat_of_zero_le (le_max_right ((s.index x).nHeight - nStep) 0)
      have hlt : h < (s.index x).nHeight := by omega
      obtain ⟨y, hup, hy, hsum⟩ := skips.up_exists hx (Nat.sub_le (s.index x).nHeight h)
      have hyx := isAncestor_iff_up.mpr ⟨_, hup⟩
      have hnext := whole.next_eq skips hx hlt.le
      rw [hup] at hnext
      rw [if_neg hbottom]
      dsimp only
      rw [hh, Int.toNat_natCast, hnext]
      obtain ⟨rest, hrest, first, ancestors, descending, last⟩ :=
        @ih y hy (by omega) (if 10 < (vHave ++ [x]).length then nStep * 2 else nStep)
          (by split_ifs <;> omega) (vHave ++ [x])
      have hle : ∀ a ∈ rest, (s.index a).nHeight ≤ (s.index y).nHeight := fun a ha =>
        ((skips.isAncestor_iff hy).mp (ancestors a ha)).1
      refine ⟨x :: rest, ?_, rfl, ?_, ?_, ?_⟩
      · rw [hrest, List.append_assoc]
        rfl
      · intro a ha
        rcases List.mem_cons.mp ha with rfl | ha
        · exact IsAncestor.refl _ _
        · exact (ancestors a ha).trans hyx
      · rw [List.pairwise_cons]
        refine ⟨?_, descending⟩
        intro a ha
        have := hle a ha
        omega
      · obtain ⟨root, hlast, hroot⟩ := last
        refine ⟨root, ?_, hroot⟩
        rw [List.getLast?_cons, hlast]
        rfl

end
end CChain

/-! A block index that grows and a chain in it. -/

structure ChainNode where
  index : ChainState
  chain : CChain := {}

inductive ChainNodeEvent where
  | addToBlockIndex (block : CBlock)
  | setTip (pindex : Option Uint256)

namespace ChainNode
open CChain

/-- The node with the genesis block, before a tip is set. -/
def start (genesis : CBlock) : ChainNode := { index := ({} : ChainState).addToBlockIndex genesis }

/-- A step, if it comes to an end. Headers of unknown predecessors and pointers to no entry change
nothing. -/
def step (node : ChainNode) : ChainNodeEvent → Option ChainNode
  | .addToBlockIndex block =>
    some (if block.hashPrevBlock ∈ node.index.mapBlockIndex then
      { node with index := node.index.addToBlockIndex block } else node)
  | .setTip pindex =>
    if ∀ x ∈ pindex, x ∈ node.index.mapBlockIndex then
      (node.chain.setTip node.index pindex).map fun chain => { node with chain := chain }
    else some node

/-- The entries form one tree, and the vector is a chain in it. -/
structure Grounded (genesis : Uint256) (node : ChainNode) : Prop where
  skips : node.index.Skips
  genesis_mem : genesis ∈ node.index.mapBlockIndex
  root : ∀ x ∈ node.index.mapBlockIndex, node.index.pprev x = none → x = genesis
  whole : Whole node.index node.chain

/-- What the vector is good for: it is the chain of its tip, which is the one set last, the forks
are the highest common ancestors with the tip, and locators go back to the genesis block. -/
structure OneChain (genesis : Uint256) (node : ChainNode) : Prop where
  empty : node.chain.tip = none → node.chain.vChain = []
  chain : ∀ t ∈ node.chain.tip, LeadsTo node.index node.chain t
  setTip : ∀ pindex : Option Uint256, (∀ x ∈ pindex, x ∈ node.index.mapBlockIndex) →
    ∃ next, node.step (.setTip pindex) = some next ∧ next.index = node.index ∧
      next.chain.tip = pindex
  noFork : node.chain.tip = none → ∀ p ∈ node.index.mapBlockIndex,
    node.chain.findFork node.index p = some none
  fork : ∀ t ∈ node.chain.tip, ∀ p ∈ node.index.mapBlockIndex, ∃ fork,
    node.chain.findFork node.index p = some (some fork) ∧
      IsAncestor node.index.pprev fork p ∧ IsAncestor node.index.pprev fork t ∧
        ∀ b, IsAncestor node.index.pprev b p → IsAncestor node.index.pprev b t →
          IsAncestor node.index.pprev b fork ∧
            (node.index.index b).nHeight ≤ (node.index.index fork).nHeight
  locator : ∀ p ∈ node.index.mapBlockIndex, ∃ vHave,
    node.chain.getLocator node.index (some p) = some vHave ∧ Locates node.index p vHave ∧
      vHave.Nodup ∧ vHave.getLast? = some genesis
  locatorTip : node.chain.getLocator node.index none =
    (node.chain.tip.map fun t => node.chain.getLocator node.index (some t)).getD (some [])

section
variable {node next : ChainNode} {genesis t x p : Uint256}

/-- A new entry keeps the chain of a tip. -/
theorem leadsTo_addToBlockIndex {s : ChainState} {chain : CChain} {block : CBlock}
    (leads : LeadsTo s chain t) (skips : s.Skips) (hnew : block.hash ∉ s.mapBlockIndex) :
    LeadsTo (s.addToBlockIndex block) chain t := by
  have hindex := ChainState.index_addToBlockIndex_of_mem hnew leads.mem
  constructor
  case mem =>
    rw [(ChainState.addToBlockIndex_rest hnew).1]
    exact List.mem_cons_of_mem _ leads.mem
  case length =>
    rw [hindex]
    exact leads.length
  case entry =>
    intro h hh
    rw [hindex] at hh ⊢
    rw [skips.up_addToBlockIndex hnew leads.mem]
    exact leads.entry h hh

theorem Grounded.addToBlockIndex (grounded : Grounded genesis node) {block : CBlock}
    (hprev : block.hashPrevBlock ∈ node.index.mapBlockIndex) :
    Grounded genesis { node with index := node.index.addToBlockIndex block } := by
  by_cases hnew : block.hash ∈ node.index.mapBlockIndex
  · have hsame : node.index.addToBlockIndex block = node.index := by
      rw [ChainState.addToBlockIndex, if_pos hnew]
    rw [hsame]
    exact grounded
  have hmap := (ChainState.addToBlockIndex_rest hnew).1
  constructor
  case skips => exact grounded.skips.addToBlockIndex block
  case genesis_mem =>
    rw [hmap]
    exact List.mem_cons_of_mem _ grounded.genesis_mem
  case root =>
    intro x hx hparent
    rw [hmap] at hx
    rcases List.mem_cons.mp hx with rfl | hx
    · rw [ChainState.pprev, ChainState.index_addToBlockIndex_self hnew hprev] at hparent
      contradiction
    · rw [ChainState.pprev_addToBlockIndex_of_mem hnew hx] at hparent
      exact grounded.root x hx hparent
  case whole =>
    rcases grounded.whole with hempty | ⟨t, leads⟩
    · exact Or.inl hempty
    · exact Or.inr ⟨t, leadsTo_addToBlockIndex leads grounded.skips hnew⟩

/-- `SetTip` comes to an end, and leaves the chain of its argument. -/
theorem Grounded.setTip (grounded : Grounded genesis node) {pindex : Option Uint256}
    (hknown : ∀ x ∈ pindex, x ∈ node.index.mapBlockIndex) :
    ∃ chain, node.step (.setTip pindex) = some { node with chain := chain } ∧
      Whole node.index chain ∧ chain.tip = pindex := by
  rw [step, if_pos hknown]
  cases pindex with
  | none => exact ⟨⟨[]⟩, rfl, Or.inl rfl, rfl⟩
  | some t =>
    obtain ⟨chain, hset, leads⟩ := grounded.whole.setTip grounded.skips (hknown t rfl)
    rw [hset]
    exact ⟨chain, rfl, Or.inr ⟨t, leads⟩, leads.tip_eq⟩

theorem Grounded.step (grounded : Grounded genesis node) (event : ChainNodeEvent) :
    ∃ next, node.step event = some next ∧ Grounded genesis next := by
  cases event with
  | addToBlockIndex block =>
    refine ⟨_, rfl, ?_⟩
    split_ifs with hprev
    · exact grounded.addToBlockIndex hprev
    · exact grounded
  | setTip pindex =>
    by_cases hknown : ∀ x ∈ pindex, x ∈ node.index.mapBlockIndex
    · obtain ⟨chain, hset, whole, -⟩ := grounded.setTip hknown
      exact ⟨_, hset, grounded.skips, grounded.genesis_mem, grounded.root, whole⟩
    · rw [ChainNode.step, if_neg hknown]
      exact ⟨node, rfl, grounded⟩

theorem grounded_start (block : CBlock) : Grounded block.hash (start block) := by
  have hmap := (@ChainState.addToBlockIndex_rest {} block List.not_mem_nil).1
  constructor
  case skips => exact ChainState.skips_empty.addToBlockIndex block
  case genesis_mem =>
    unfold start
    rw [hmap]
    exact List.mem_cons_self
  case root =>
    intro x hx _
    unfold start at hx
    rw [hmap] at hx
    exact List.mem_singleton.mp hx
  case whole => exact Or.inl rfl

/-- Two entries have a common ancestor, the genesis block. -/
theorem Grounded.isAncestor_genesis (grounded : Grounded genesis node)
    (hx : x ∈ node.index.mapBlockIndex) : IsAncestor node.index.pprev genesis x := by
  obtain ⟨a, hup, ha, hsum⟩ := grounded.skips.up_exists hx (le_refl (node.index.index x).nHeight)
  have hroot : node.index.pprev a = none := by
    cases hparent : node.index.pprev a with
    | none => rfl
    | some p =>
      have hheight := (grounded.skips.parent_mem a ha p hparent).2
      omega
  rw [← grounded.root a ha hroot]
  exact isAncestor_iff_up.mpr ⟨_, hup⟩

theorem Grounded.locator (grounded : Grounded genesis node) (hp : p ∈ node.index.mapBlockIndex) :
    ∃ vHave, node.chain.getLocator node.index (some p) = some vHave ∧
      Locates node.index p vHave ∧ vHave.Nodup ∧ vHave.getLast? = some genesis := by
  obtain ⟨vHave, hlocate, locates⟩ := grounded.whole.locate grounded.skips hp
    (Nat.lt_succ_self _) Int.one_pos []
  obtain ⟨root, hlast, hroot⟩ := locates.last
  have hmem := grounded.skips.mem_of_isAncestor hp
    (locates.ancestors root (List.mem_of_getLast? hlast))
  refine ⟨vHave, hlocate, locates, ?_, ?_⟩
  · apply locates.descending.imp
    rintro a b hlt rfl
    exact lt_irrefl _ hlt
  · rw [hlast, grounded.root root hmem hroot]

theorem Grounded.oneChain (grounded : Grounded genesis node) : OneChain genesis node := by
  have hempty (htip : node.chain.tip = none) : node.chain.vChain = [] := by
    rcases grounded.whole with hempty | ⟨t, leads⟩
    · exact hempty
    · rw [leads.tip_eq] at htip
      contradiction
  have hchain (t : Uint256) (ht : node.chain.tip = some t) : LeadsTo node.index node.chain t := by
    rcases grounded.whole with hempty | ⟨t', leads⟩
    · rw [tip, hempty] at ht
      contradiction
    · rw [← Option.some.inj (leads.tip_eq.symm.trans ht)]
      exact leads
  constructor
  case empty => exact hempty
  case chain => exact hchain
  case setTip =>
    intro pindex hknown
    obtain ⟨chain, hset, -, htip⟩ := grounded.setTip hknown
    exact ⟨_, hset, rfl, htip⟩
  case noFork =>
    intro htip p _
    unfold findFork height
    rw [hempty htip, if_pos (by simp; omega), if_pos (by simp)]
    rfl
  case fork =>
    intro t ht p hp
    have leads := hchain t ht
    obtain ⟨fork, hfind, hfork, hforkt, hhighest⟩ := leads.findFork grounded.skips hp
      ⟨genesis, grounded.isAncestor_genesis hp, grounded.isAncestor_genesis leads.mem⟩
    have hmem := grounded.skips.mem_of_isAncestor hp hfork
    refine ⟨fork, hfind, hfork, hforkt, ?_⟩
    intro b hb hbt
    have hbfork := hhighest b hb hbt
    exact ⟨hbfork, ((grounded.skips.isAncestor_iff hmem).mp hbfork).1⟩
  case locator =>
    intro p hp
    exact grounded.locator hp
  case locatorTip =>
    cases htip : node.chain.tip with
    | none =>
      simp only [getLocator, htip]
      rfl
    | some t =>
      simp only [getLocator, htip]
      rfl

/-- However the block index grows and whatever tips are set, `SetTip` comes to an end and the vector
is the chain of its tip. -/
theorem attempt_oneChain (block : CBlock) (events : List ChainNodeEvent) :
    ∃ node, Runs.attempt step (start block) events = some node ∧ OneChain block.hash node := by
  obtain ⟨node, hrun, grounded⟩ := Runs.exists_attempt (grounded_start block)
    (fun _ event grounded => grounded.step event) events
  exact ⟨node, hrun, grounded.oneChain⟩

end
end ChainNode
end Lytix
