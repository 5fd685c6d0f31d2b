import Lytix.Coins.CacheInvariant

/-! Sequences of operations on the cache stack refine the flat unspent output set. -/
namespace Lytix

/-- The operations on the top layer, and `push` and `pop` of a layer. `pop` flushes the layer
it deletes. -/
inductive CoinsOp where
  | getCoins (txid : Uint256)
  | accessCoins (txid : Uint256)
  | haveCoins (txid : Uint256)
  | modifyCoins (txid : Uint256) (f : CCoins → CCoins)
  | flush
  | push
  | pop

/-- What the caller of an operation sees. -/
inductive CoinsSeen where
  | coins (c : Option CCoins)
  | have (b : Bool)
  | done
deriving DecidableEq

namespace CCoinsView

def step (view : CCoinsView) : CoinsOp → Option (CoinsSeen × CCoinsView)
  | .getCoins txid =>
    let (r, view') := view.getCoins txid
    some (.coins (r.bind CCoins.live?), view')
  | .accessCoins txid =>
    let (r, view') := view.accessCoins txid
    some (.coins (r.bind CCoins.live?), view')
  | .haveCoins txid =>
    let (b, view') := view.haveCoins txid
    some (.have b, view')
  | .modifyCoins txid f => some (.done, view.modifyCoins txid f)
  | .flush => view.flush.map fun view' => (.done, view')
  | .push => some (.done, view.push)
  | .pop => view.flush.map fun view' => (.done, view'.pop)

/-- A sequence of operations; `none` when an assertion fails on the way. -/
def run : CCoinsView → List CoinsOp → Option (List CoinsSeen × CCoinsView)
  | view, [] => some ([], view)
  | view, op :: ops =>
    (view.step op).bind fun (seen, view') =>
      (view'.run ops).map fun (rest, final) => (seen :: rest, final)

end CCoinsView

namespace CoinsMap

/-- The same operations on one flat map. -/
def step (m : CoinsMap) : CoinsOp → CoinsSeen × CoinsMap
  | .getCoins txid => (.coins (m.get txid), m)
  | .accessCoins txid => (.coins (m.get txid), m)
  | .haveCoins txid => (.have (m.haveCoins txid), m)
  | .modifyCoins txid f => (.done, m.modifyCoins txid f)
  | .flush => (.done, m)
  | .push => (.done, m)
  | .pop => (.done, m)

def run : CoinsMap → List CoinsOp → List CoinsSeen × CoinsMap
  | m, [] => ([], m)
  | m, op :: ops =>
    let (seen, m') := m.step op
    let (rest, final) := m'.run ops
    (seen :: rest, final)

end CoinsMap

/-- Over the database `db`, the operations trip no assertion, show what the flat map shows,
and flushing every layer leaves a database equal to the flat map. -/
def CacheRefines (db : CCoinsViewDB) (ops : List CoinsOp) : Prop :=
  ∃ view, (CCoinsView.cache (.db db) 0 ∅).run ops = some ((db.flat.run ops).1, view) ∧
    (∀ txid, view.seenCoins txid = (db.flat.run ops).2.get txid) ∧
    ∃ db', view.flushAll = some (.db db') ∧ db'.flat = (db.flat.run ops).2

def CoinsOp.Uniform : CoinsOp → Prop
  | .modifyCoins _ f => CCoinsView.Uniform f
  | _ => True

namespace CCoinsView

/-- A stack with at least one cache layer that shows the flat map `m`. -/
structure Models (view : CCoinsView) (m : CoinsMap) : Prop where
  isCache : ∃ base hashBlock cacheCoins, view = cache base hashBlock cacheCoins
  inv : view.Inv
  seen_eq : view.seenCoins = m.get

theorem getCoins_isCache (base : CCoinsView) (hashBlock : Uint256) (cacheCoins : CCoinsMap)
    (txid : Uint256) : ∃ base' hashBlock' cacheCoins',
      ((cache base hashBlock cacheCoins).getCoins txid).2 =
        cache base' hashBlock' cacheCoins' := by
  unfold getCoins
  split
  · exact ⟨_, _, _, rfl⟩
  · split <;> exact ⟨_, _, _, rfl⟩

theorem modifyCoins_isCache (base : CCoinsView) (hashBlock : Uint256) (cacheCoins : CCoinsMap)
    (txid : Uint256) (f : CCoins → CCoins) : ∃ base' hashBlock' cacheCoins',
      (cache base hashBlock cacheCoins).modifyCoins txid f =
        cache base' hashBlock' cacheCoins' := by
  simp only [modifyCoins]
  split_ifs <;> exact ⟨_, _, _, rfl⟩

theorem Models.read {view : CCoinsView} {m : CoinsMap} (h : view.Models m) (txid : Uint256) :
    (view.getCoins txid).1.bind CCoins.live? = m.get txid ∧ (view.getCoins txid).2.Models m := by
  have hread := getCoins_reads view txid h.inv
  obtain ⟨base, hashBlock, cacheCoins, rfl⟩ := h.isCache
  refine ⟨?_, getCoins_isCache _ _ _ _, hread.inv, ?_⟩
  · rw [hread.answer, h.seen_eq]
  · rw [hread.fills.seen_eq, h.seen_eq]

theorem Models.flush {view : CCoinsView} {m : CoinsMap} (h : view.Models m) :
    ∃ view', view.flush = some view' ∧ view'.Models m ∧ view'.pop.Models m := by
  obtain ⟨base, hashBlock, cacheCoins, rfl⟩ := h.isCache
  obtain ⟨base', hwrite, hinv, hdepth, hseen⟩ := batchWrite_refines h.inv
  have hseen' : base'.seenCoins = m.get := hseen.trans h.seen_eq
  have hflushed : (cache base' hashBlock ∅).Models m :=
    ⟨⟨_, _, _, rfl⟩, ⟨hinv, layerInv_empty base'⟩, hseen'⟩
  refine ⟨cache base' hashBlock ∅, by simp [CCoinsView.flush, hwrite], hflushed, ?_⟩
  cases base' with
  | db disk => exact hflushed
  | cache base₀ hashBlock₀ cacheCoins₀ => exact ⟨⟨_, _, _, rfl⟩, hinv, hseen'⟩

/-- One operation is simulated by the flat map. -/
theorem Models.step {view : CCoinsView} {m : CoinsMap} (h : view.Models m) (op : CoinsOp)
    (hop : op.Uniform) :
    ∃ view', view.step op = some ((m.step op).1, view') ∧ view'.Models (m.step op).2 := by
  cases op with
  | getCoins txid =>
    obtain ⟨hanswer, hmodels⟩ := h.read txid
    exact ⟨_, by simp only [CCoinsView.step, CoinsMap.step, hanswer], hmodels⟩
  | accessCoins txid =>
    obtain ⟨hanswer, hmodels⟩ := h.read txid
    exact ⟨_, by simp only [CCoinsView.step, CoinsMap.step, accessCoins, hanswer], hmodels⟩
  | haveCoins txid =>
    obtain ⟨-, hmodels⟩ := h.read txid
    obtain ⟨base, hashBlock, cacheCoins, rfl⟩ := h.isCache
    have hanswer := haveCoins_answer txid h.inv
    rw [h.seen_eq] at hanswer
    refine ⟨_, ?_, hmodels⟩
    simp only [CCoinsView.step, CoinsMap.step, CoinsMap.haveCoins, ← hanswer]
    rfl
  | modifyCoins txid f =>
    obtain ⟨base, hashBlock, cacheCoins, rfl⟩ := h.isCache
    obtain ⟨hinv, hseen⟩ := modifyCoins_refines txid hop h.inv h.seen_eq
    exact ⟨_, rfl, modifyCoins_isCache _ _ _ _ _, hinv, hseen⟩
  | flush =>
    obtain ⟨view', hflush, hmodels, -⟩ := h.flush
    exact ⟨view', by simp only [CCoinsView.step, CoinsMap.step, hflush, Option.map_some], hmodels⟩
  | push => exact ⟨_, rfl, ⟨_, _, _, rfl⟩, ⟨h.inv, layerInv_empty view⟩, h.seen_eq⟩
  | pop =>
    obtain ⟨view', hflush, -, hmodels⟩ := h.flush
    exact ⟨view'.pop, by simp only [CCoinsView.step, CoinsMap.step, hflush, Option.map_some],
      hmodels⟩

/-- The simulation along a whole sequence of operations. -/
theorem Models.run {view : CCoinsView} {m : CoinsMap} (h : view.Models m) (ops : List CoinsOp)
    (hops : ∀ op ∈ ops, op.Uniform) :
    ∃ view', view.run ops = some ((m.run ops).1, view') ∧ view'.Models (m.run ops).2 := by
  induction ops generalizing view m with
  | nil => exact ⟨view, rfl, h⟩
  | cons op ops ih =>
    obtain ⟨view₁, hstep, hmodels⟩ := h.step op (hops op (by simp))
    obtain ⟨view', hrun, hfinal⟩ := ih hmodels (fun o ho => hops o (by simp [ho]))
    refine ⟨view', ?_, hfinal⟩
    simp only [CCoinsView.run, hstep, Option.bind_some, hrun, Option.map_some, CoinsMap.run]

theorem models_fresh (disk : CCoinsViewDB) : (cache (db disk) 0 ∅).Models disk.flat :=
  ⟨⟨_, _, _, rfl⟩, ⟨trivial, layerInv_empty _⟩, rfl⟩

end CCoinsView

/-- Any sequence of operations over any database refines the flat map, provided its mutations
treat all empty entries alike. -/
theorem cacheRefines_of_uniform (db : CCoinsViewDB) (ops : List CoinsOp)
    (hops : ∀ op ∈ ops, op.Uniform) : CacheRefines db ops := by
  obtain ⟨view, hrun, hmodels⟩ := (CCoinsView.models_fresh db).run ops hops
  obtain ⟨db', hflush, hdisk⟩ := CCoinsView.flushLayers_refines view.depth view rfl hmodels.inv
  refine ⟨view, hrun, fun txid => by rw [hmodels.seen_eq], db', hflush, ?_⟩
  exact CoinsMap.ext (hdisk.trans hmodels.seen_eq)

def paidAtSeven : CCoins := ⟨true, false, [⟨5, [], -10⟩], 7, 1⟩

def onePaid : CCoinsViewDB := ⟨fun txid => if txid = 1 then some paidAtSeven else none, 0⟩

def spendAll (c : CCoins) : CCoins := { c with vout := [] }

def addOutput (c : CCoins) : CCoins := { c with vout := [⟨3, [], -10⟩] }

theorem cacheRefines_spend_and_recreate : CacheRefines onePaid
    [.push, .getCoins 1, .modifyCoins 1 spendAll, .haveCoins 1, .pop, .modifyCoins 1 fun _ =>
      paidAtSeven, .flush, .accessCoins 1] := by
  refine cacheRefines_of_uniform onePaid _ ?_
  intro op hop
  simp only [List.mem_cons, List.not_mem_nil, or_false] at hop
  rcases hop with rfl | rfl | rfl | rfl | rfl | rfl | rfl | rfl
  case inr.inr.inl => exact fun c _ => rfl
  case inr.inr.inr.inr.inr.inl => exact fun c _ => rfl
  all_goals exact trivial

/-- A layer over a database entry keeps the height of the entry it has seen spent entirely, and
a mutation that only adds an output finds it again; the flat map starts from an empty entry. -/
theorem not_cacheRefines_add_after_spend : ¬ CacheRefines onePaid
    [.modifyCoins 1 spendAll, .modifyCoins 1 addOutput, .getCoins 1] := by
  rintro ⟨view, hrun, -⟩
  have hseen := congrArg (Option.map Prod.fst) hrun
  dsimp only [Option.map_some] at hseen
  revert hseen
  decide

end Lytix
