import Lytix.Coins.ViewCache

/-! What each operation on a stack of cache layers does to what is seen through it. The
invariant is stated per layer against what is seen through the layers below it; the write-back
library carries the argument about one slot, and the lemmas here lift it to layers. -/
namespace Lytix

open WriteBack (seen)

namespace CCoinsViewDB

/-- The flat map a database stands for: pruned entries read as absent. -/
def flat (db : CCoinsViewDB) : CoinsMap where
  get txid := (db.getCoins txid).bind CCoins.live?
  live := by
    intro txid c h
    obtain ⟨d, hd, hlive⟩ := Option.bind_eq_some_iff.mp h
    obtain ⟨raw, -, rfl⟩ := Option.map_eq_some_iff.mp hd
    obtain ⟨hp, rfl⟩ := CCoins.live?_eq_some.mp hlive
    exact ⟨raw.cleaned_cleanup, hp⟩

private theorem coins_batchWrite (db : CCoinsViewDB) (mapCoins : CCoinsMap) (hashBlock k : Uint256) :
    (db.batchWrite mapCoins hashBlock).coins k =
      ((mapCoins.lookup k).map fun e =>
        if e.dirty then e.val.live? else db.coins k).getD (db.coins k) := by
  have hloop := KeyedLoop.get_foldl CCoinsViewDB.coins batchWriteCoins
    (fun below e => if e.dirty then e.val.live? else below)
    (by
      intro m k e
      cases hd : e.dirty <;> simp [batchWriteCoins, hd, CCoins.live?])
    (by
      intro m k e k' hk
      cases hd : e.dirty <;> simp [batchWriteCoins, hd, hk])
    mapCoins.entries mapCoins.nodupKeys db k
  unfold batchWrite
  split_ifs <;> exact hloop

/-- Writing a layer of cleaned-up entries into the database. -/
theorem flat_batchWrite (db : CCoinsViewDB) (mapCoins : CCoinsMap) (hashBlock : Uint256)
    (hagree : ∀ k e, mapCoins.lookup k = some e → e.dirty = false → e.val.live? = db.flat.get k)
    (hclean : ∀ k e, mapCoins.lookup k = some e → e.val.Cleaned) (k : Uint256) :
    (db.batchWrite mapCoins hashBlock).flat.get k =
      seen CCoins.live? (db.flat.get k) (mapCoins.lookup k) := by
  have hcoins := coins_batchWrite db mapCoins hashBlock k
  cases hit : mapCoins.lookup k with
  | none =>
    rw [hit] at hcoins
    simp only [flat, getCoins, hcoins, seen, Option.map_none, Option.getD_none]
  | some e =>
    rw [hit] at hcoins
    simp only [Option.map_some, Option.getD_some] at hcoins
    cases hd : e.dirty with
    | false =>
      rw [hd] at hcoins
      simp only [Bool.false_eq_true, if_false] at hcoins
      simp only [seen, hagree k e hit hd, flat, getCoins, hcoins]
    | true =>
      rw [hd] at hcoins
      simp only [if_true] at hcoins
      have hcleanup : e.val.cleanup = e.val := hclean k e hit
      simp only [seen, flat, getCoins, hcoins]
      cases hlive : e.val.live? with
      | none => rfl
      | some d =>
        obtain ⟨-, rfl⟩ := CCoins.live?_eq_some.mp hlive
        simp only [Option.map_some, Option.bind_some, hcleanup, hlive]

end CCoinsViewDB

namespace CCoinsView

/-- What a reader at the top of the stack sees, pruned entries as absent. -/
def seenCoins : CCoinsView → Uint256 → Option CCoins
  | db disk, txid => disk.flat.get txid
  | cache base _ cacheCoins, txid =>
    seen CCoins.live? (base.seenCoins txid) (cacheCoins.lookup txid)

/-- A layer above has pulled the entry through this one. -/
def Holds : CCoinsView → Uint256 → Prop
  | db _, _ => True
  | cache _ _ cacheCoins, txid => (cacheCoins.lookup txid).isSome

structure EntryInv (base : CCoinsView) (txid : Uint256) (e : CCoinsCacheEntry) : Prop where
  coherent : WriteBack.Coherent CCoins.live? (base.seenCoins txid) e
  cleaned : e.val.Cleaned
  held : e.fresh = false → base.Holds txid

def LayerInv (base : CCoinsView) (cacheCoins : CCoinsMap) : Prop :=
  ∀ txid e, cacheCoins.lookup txid = some e → EntryInv base txid e

def Inv : CCoinsView → Prop
  | db _ => True
  | cache base _ cacheCoins => base.Inv ∧ LayerInv base cacheCoins

/-- `view'` answers as `view` does and still holds every entry pulled through it. -/
structure Fills (view view' : CCoinsView) : Prop where
  seen_eq : view'.seenCoins = view.seenCoins
  holds : ∀ txid, view.Holds txid → view'.Holds txid

theorem Fills.refl (view : CCoinsView) : Fills view view := ⟨rfl, fun _ h => h⟩

theorem EntryInv.fills {base base' : CCoinsView} {txid : Uint256} {e : CCoinsCacheEntry}
    (h : EntryInv base txid e) (hf : Fills base base') : EntryInv base' txid e where
  coherent := by
    rw [hf.seen_eq]
    exact h.coherent
  cleaned := h.cleaned
  held hfresh := hf.holds txid (h.held hfresh)

theorem LayerInv.fills {base base' : CCoinsView} {cacheCoins : CCoinsMap}
    (h : LayerInv base cacheCoins) (hf : Fills base base') : LayerInv base' cacheCoins :=
  fun txid e he => (h txid e he).fills hf

theorem LayerInv.insert {base : CCoinsView} {cacheCoins : CCoinsMap} {txid : Uint256}
    {e : CCoinsCacheEntry} (h : LayerInv base cacheCoins) (he : EntryInv base txid e) :
    LayerInv base (cacheCoins.insert txid e) := by
  intro k e' hk
  by_cases hkt : k = txid
  · subst hkt
    rw [AList.lookup_insert] at hk
    obtain rfl := Option.some.inj hk
    exact he
  · rw [AList.lookup_insert_ne hkt] at hk
    exact h k e' hk

theorem LayerInv.erase {base : CCoinsView} {cacheCoins : CCoinsMap} (txid : Uint256)
    (h : LayerInv base cacheCoins) : LayerInv base (cacheCoins.erase txid) := by
  intro k e' hk
  by_cases hkt : k = txid
  · subst hkt
    rw [AList.lookup_erase] at hk
    exact absurd hk (by simp)
  · rw [AList.lookup_erase_ne hkt] at hk
    exact h k e' hk

theorem seenCoins_insert_self (base : CCoinsView) (hashBlock : Uint256) (cacheCoins : CCoinsMap)
    (txid : Uint256) (e : CCoinsCacheEntry) :
    (cache base hashBlock (cacheCoins.insert txid e)).seenCoins txid = e.val.live? := by
  simp only [seenCoins, AList.lookup_insert, seen]

theorem seenCoins_insert_ne (base : CCoinsView) (hashBlock : Uint256) (cacheCoins : CCoinsMap)
    {txid k : Uint256} (h : k ≠ txid) (e : CCoinsCacheEntry) :
    (cache base hashBlock (cacheCoins.insert txid e)).seenCoins k =
      (cache base hashBlock cacheCoins).seenCoins k := by
  simp only [seenCoins, AList.lookup_insert_ne h]

/-- The entry a read leaves in a layer. -/
theorem entryInv_fetch {base : CCoinsView} {txid : Uint256} {tmp : CCoins}
    (hseen : tmp.live? = base.seenCoins txid) (hclean : tmp.Cleaned) (hheld : base.Holds txid) :
    EntryInv base txid ⟨tmp, false, tmp.isPruned⟩ where
  coherent := by
    have hfetch := WriteBack.fetch_coherent hseen
    rwa [WriteBack.fetch, CCoins.live?_isNone] at hfetch
  cleaned := hclean
  held _ := hheld

/-- What one `GetCoins` does: it answers what is seen, and only fills caches. -/
structure Reads (view : CCoinsView) (txid : Uint256) (r : Option CCoins × CCoinsView) : Prop where
  inv : r.2.Inv
  fills : Fills view r.2
  answer : r.1.bind CCoins.live? = view.seenCoins txid
  cleaned : ∀ c, r.1 = some c → c.Cleaned
  held : r.1.isSome → r.2.Holds txid

theorem getCoins_reads (view : CCoinsView) (txid : Uint256) (h : view.Inv) :
    Reads view txid (view.getCoins txid) := by
  induction view with
  | db disk =>
    refine ⟨trivial, Fills.refl _, rfl, fun c hc => ?_, fun _ => trivial⟩
    obtain ⟨raw, -, rfl⟩ := Option.map_eq_some_iff.mp hc
    exact raw.cleaned_cleanup
  | cache base hashBlock cacheCoins ih =>
    obtain ⟨hbase, hlayer⟩ := h
    cases hit : cacheCoins.lookup txid with
    | some it =>
      simp only [getCoins, hit]
      refine ⟨⟨hbase, hlayer⟩, Fills.refl _, ?_, ?_, ?_⟩
      · simp only [seenCoins, hit, seen, Option.bind_some]
      · intro c hc
        obtain rfl := Option.some.inj hc
        exact (hlayer txid it hit).cleaned
      · intro _
        simp only [Holds, hit, Option.isSome_some]
    | none =>
      have hread := ih hbase
      cases hr : base.getCoins txid with
      | mk r base' =>
      rw [hr] at hread
      cases r with
      | none =>
        simp only [getCoins, hit, hr]
        have hanswer : none = base.seenCoins txid := hread.answer
        refine ⟨⟨hread.inv, hlayer.fills hread.fills⟩, ⟨?_, fun _ hk => hk⟩, ?_, by simp, by simp⟩
        · funext k
          simp only [seenCoins, hread.fills.seen_eq]
        · simp only [seenCoins, hit, seen, Option.bind_none, ← hanswer]
      | some tmp =>
        simp only [getCoins, hit, hr]
        have hanswer : tmp.live? = base.seenCoins txid := hread.answer
        have hanswer' : tmp.live? = base'.seenCoins txid := by
          rw [hread.fills.seen_eq, hanswer]
        have hentry : EntryInv base' txid ⟨tmp, false, tmp.isPruned⟩ :=
          entryInv_fetch hanswer' (hread.cleaned tmp rfl) (hread.held rfl)
        refine ⟨⟨hread.inv, (hlayer.fills hread.fills).insert hentry⟩, ⟨?_, ?_⟩, ?_, ?_, ?_⟩
        · funext k
          by_cases hk : k = txid
          · subst hk
            rw [seenCoins_insert_self]
            simp only [seenCoins, hit, seen, hanswer]
          · rw [seenCoins_insert_ne _ _ _ hk]
            simp only [seenCoins, hread.fills.seen_eq]
        · intro k hk
          by_cases hkt : k = txid
          · subst hkt
            simp [Holds]
          · simpa only [Holds, AList.lookup_insert_ne hkt] using hk
        · simp only [seenCoins, hit, seen, Option.bind_some, hanswer]
        · intro c hc
          obtain rfl := Option.some.inj hc
          exact hread.cleaned tmp rfl
        · intro _
          simp [Holds]

theorem haveCoins_answer {base : CCoinsView} {hashBlock : Uint256} {cacheCoins : CCoinsMap}
    (txid : Uint256) (h : (cache base hashBlock cacheCoins).Inv) :
    ((cache base hashBlock cacheCoins).haveCoins txid).1 =
      ((cache base hashBlock cacheCoins).seenCoins txid).isSome := by
  have hread := getCoins_reads _ txid h
  simp only [haveCoins]
  rw [← hread.answer]
  cases hr : ((cache base hashBlock cacheCoins).getCoins txid).1 with
  | none => rfl
  | some c =>
    have hclean := hread.cleaned c hr
    have hpruned := CCoins.isPruned_iff_vout_nil hclean
    simp only [Option.any_some, Option.bind_some, CCoins.live?]
    by_cases hp : c.isPruned = true
    · simp [hp, hpruned.mp hp]
    · have hne : c.vout ≠ [] := fun hnil => hp (hpruned.mpr hnil)
      simp [hp, hne]

/-- A mutation that treats all empty entries alike, as `operator==` does. -/
def Uniform (f : CCoins → CCoins) : Prop :=
  ∀ c : CCoins, c.vout = [] → (f c).cleanup.live? = (f CCoins.clear).cleanup.live?

theorem modifierEntry_spec {base : CCoinsView} {hashBlock : Uint256} {cacheCoins : CCoinsMap}
    (txid : Uint256) (h : (cache base hashBlock cacheCoins).Inv) :
    (modifierEntry base cacheCoins txid).2.Inv ∧
      Fills base (modifierEntry base cacheCoins txid).2 ∧
      EntryInv (modifierEntry base cacheCoins txid).2 txid
        (modifierEntry base cacheCoins txid).1 ∧
      (modifierEntry base cacheCoins txid).1.val.live? =
        (cache base hashBlock cacheCoins).seenCoins txid := by
  obtain ⟨hbase, hlayer⟩ := h
  cases hit : cacheCoins.lookup txid with
  | some it =>
    simp only [modifierEntry, hit, seenCoins, seen]
    exact ⟨hbase, Fills.refl _, hlayer txid it hit, trivial⟩
  | none =>
    have hread := getCoins_reads base txid hbase
    cases hr : base.getCoins txid with
    | mk r base' =>
    rw [hr] at hread
    have hbelow : base'.seenCoins txid = base.seenCoins txid := by rw [hread.fills.seen_eq]
    cases r with
    | none =>
      simp only [modifierEntry, hit, hr, seenCoins, seen]
      have hanswer : none = base.seenCoins txid := hread.answer
      refine ⟨hread.inv, hread.fills, ⟨⟨fun _ => ?_, fun _ => ?_⟩, CCoins.cleaned_clear, ?_⟩, ?_⟩
      · rw [hbelow, ← hanswer]
        rfl
      · rw [hbelow, ← hanswer]
      · intro hfresh
        exact absurd hfresh (by simp)
      · rw [← hanswer]
        rfl
    | some tmp =>
      simp only [modifierEntry, hit, hr, seenCoins, seen]
      have hanswer : tmp.live? = base.seenCoins txid := hread.answer
      exact ⟨hread.inv, hread.fills,
        entryInv_fetch (hanswer.trans hbelow.symm) (hread.cleaned tmp rfl) (hread.held rfl),
        hanswer⟩

/-- A uniform mutation sees the same through the cache as through the flat map. -/
theorem uniform_entry {f : CCoins → CCoins} (hf : Uniform f) {e : CCoinsCacheEntry} {m : CoinsMap}
    {txid : Uint256} (hclean : e.val.Cleaned) (hseen : e.val.live? = m.get txid) :
    (f e.val).cleanup.live? = (f (m.coinsOf txid)).cleanup.live? := by
  unfold CoinsMap.coinsOf
  cases hm : m.get txid with
  | some d =>
    obtain ⟨-, hd⟩ := CCoins.live?_eq_some.mp (hseen.trans hm)
    rw [hd, Option.getD_some]
  | none =>
    have hpruned : e.val.isPruned = true := by
      rw [← CCoins.live?_isNone, hseen, hm]
      rfl
    rw [Option.getD_none]
    exact hf e.val ((CCoins.isPruned_iff_vout_nil hclean).mp hpruned)

theorem modifyCoins_refines {base : CCoinsView} {hashBlock : Uint256} {cacheCoins : CCoinsMap}
    {m : CoinsMap} (txid : Uint256) {f : CCoins → CCoins} (hf : Uniform f)
    (h : (cache base hashBlock cacheCoins).Inv)
    (hm : (cache base hashBlock cacheCoins).seenCoins = m.get) :
    ((cache base hashBlock cacheCoins).modifyCoins txid f).Inv ∧
      ((cache base hashBlock cacheCoins).modifyCoins txid f).seenCoins =
        (m.modifyCoins txid f).get := by
  have hlayer := h.2
  obtain ⟨hinv, hfills, hentry, hval⟩ := modifierEntry_spec txid h
  rw [modifyCoins]
  generalize hme : modifierEntry base cacheCoins txid = me at hinv hfills hentry hval
  obtain ⟨entry, base'⟩ := me
  dsimp only at hinv hfills hentry hval ⊢
  rw [hm] at hval
  have hobs := uniform_entry hf hentry.cleaned hval
  have hstored := WriteBack.seen_store (v := (f entry.val).cleanup) hentry.coherent
  have hkept : ∀ e', WriteBack.store CCoins.live? entry (f entry.val).cleanup = some e' →
      WriteBack.Coherent CCoins.live? (base'.seenCoins txid) e' :=
    fun e' => WriteBack.store_coherent hentry.coherent
  rw [WriteBack.store, CCoins.live?_isNone] at hstored
  have hother : ∀ k, k ≠ txid →
      seen CCoins.live? (base'.seenCoins k) (cacheCoins.lookup k) = m.get k := by
    intro k _
    rw [hfills.seen_eq, ← hm]
    rfl
  have hself : (m.modifyCoins txid f).get txid = (f entry.val).cleanup.live? := by
    rw [CoinsMap.modifyCoins, CoinsMap.get_set_self, ← hobs]
  split_ifs with hdrop
  · refine ⟨⟨hinv, (hlayer.fills hfills).erase txid⟩, ?_⟩
    funext k
    by_cases hk : k = txid
    · subst hk
      rw [if_pos hdrop] at hstored
      simp only [seenCoins, AList.lookup_erase]
      rw [hstored, hself]
    · rw [CoinsMap.modifyCoins, CoinsMap.get_set_of_ne _ hk, ← hother k hk]
      simp only [seenCoins, AList.lookup_erase_ne hk]
  · have hnew : EntryInv base' txid ⟨(f entry.val).cleanup, true, entry.fresh⟩ := by
      refine ⟨hkept _ ?_, CCoins.cleaned_cleanup _, hentry.held⟩
      rw [WriteBack.store, CCoins.live?_isNone, if_neg hdrop]
    refine ⟨⟨hinv, (hlayer.fills hfills).insert hnew⟩, ?_⟩
    funext k
    by_cases hk : k = txid
    · subst hk
      rw [seenCoins_insert_self, hself]
    · rw [seenCoins_insert_ne _ _ _ hk, CoinsMap.modifyCoins, CoinsMap.get_set_of_ne _ hk,
        ← hother k hk]
      rfl

/-- One round of `BatchWrite` is the slot-wise merge, and its assertion holds when the entry
is writable. -/
theorem batchWriteEntry_spec (cacheCoins : CCoinsMap) (txid : Uint256) (e : CCoinsCacheEntry)
    (hok : WriteBack.Writable CCoins.live? (cacheCoins.lookup txid) e) :
    ∃ cacheCoins', batchWriteEntry cacheCoins ⟨txid, e⟩ = some cacheCoins' ∧
      cacheCoins'.lookup txid = WriteBack.merge CCoins.live? (cacheCoins.lookup txid) e ∧
      ∀ k ≠ txid, cacheCoins'.lookup k = cacheCoins.lookup k := by
  unfold batchWriteEntry WriteBack.merge
  cases hd : e.dirty with
  | false => exact ⟨cacheCoins, by simp, by simp, fun k _ => rfl⟩
  | true =>
    simp only [if_true]
    cases hus : cacheCoins.lookup txid with
    | none =>
      simp only [CCoins.live?_isNone]
      cases hp : e.val.isPruned with
      | true => exact ⟨cacheCoins, by simp, by simp [hus], fun k _ => rfl⟩
      | false =>
        have hfresh : e.fresh = true := hok hd hus (by rw [CCoins.live?_isNone, hp])
        refine ⟨cacheCoins.insert txid ⟨e.val, true, true⟩, by simp [hfresh], by simp, ?_⟩
        intro k hk
        exact AList.lookup_insert_ne hk
    | some itUs =>
      simp only [WriteBack.store, CCoins.live?_isNone]
      cases hdrop : itUs.fresh && e.val.isPruned with
      | true =>
        refine ⟨cacheCoins.erase txid, by simp, by simp, ?_⟩
        intro k hk
        exact AList.lookup_erase_ne hk
      | false =>
        refine ⟨cacheCoins.insert txid ⟨e.val, true, itUs.fresh⟩, by simp, by simp, ?_⟩
        intro k hk
        exact AList.lookup_insert_ne hk

theorem merge_entryInv {base : CCoinsView} {parent : CCoinsMap} {hashBlock : Uint256}
    {txid : Uint256} {child e' : CCoinsCacheEntry} (hparent : LayerInv base parent)
    (hchild : EntryInv (cache base hashBlock parent) txid child)
    (h : WriteBack.merge CCoins.live? (parent.lookup txid) child = some e') :
    EntryInv base txid e' := by
  have hslot : ∀ e, parent.lookup txid = some e → EntryInv base txid e := hparent txid
  obtain ⟨hval, hfresh⟩ := WriteBack.of_merge_eq_some h
  refine ⟨WriteBack.merge_coherent (fun e he => (hslot e he).coherent) hchild.coherent
    hchild.held h, ?_, fun hf => ?_⟩
  · rcases hval with hval | hval
    · rw [hval]
      exact hchild.cleaned
    · exact (hslot e' hval).cleaned
  · obtain ⟨e, he, hef⟩ := hfresh hf
    exact (hslot e he).held hef

/-- Writing a layer back never trips the assertion, and the parent then shows what the layer
showed. -/
theorem batchWrite_refines {base : CCoinsView} {hashBlock : Uint256} {cacheCoins : CCoinsMap}
    (h : (cache base hashBlock cacheCoins).Inv) :
    ∃ base', base.batchWrite cacheCoins hashBlock = some base' ∧ base'.Inv ∧
      base'.depth = base.depth ∧
      base'.seenCoins = (cache base hashBlock cacheCoins).seenCoins := by
  obtain ⟨hbase, hlayer⟩ := h
  cases base with
  | db disk =>
    refine ⟨_, rfl, trivial, rfl, ?_⟩
    funext k
    exact CCoinsViewDB.flat_batchWrite disk cacheCoins hashBlock
      (fun k e he => (hlayer k e he).coherent.clean) (fun k e he => (hlayer k e he).cleaned) k
  | cache base₀ hashBlock₀ parent =>
    obtain ⟨hbase₀, hparent⟩ := hbase
    obtain ⟨parent', hloop, hget⟩ := KeyedLoop.exists_foldlM
      (fun (m : CCoinsMap) k => m.lookup k) batchWriteEntry (WriteBack.Writable CCoins.live?)
      (WriteBack.merge CCoins.live?) batchWriteEntry_spec cacheCoins.entries
      cacheCoins.nodupKeys parent (by
        intro k e hmem
        exact WriteBack.writable_of_held (hlayer k e (AList.mem_lookup_iff.mpr hmem)).held)
    have hget' : ∀ k, parent'.lookup k =
        ((cacheCoins.lookup k).map (WriteBack.merge CCoins.live? (parent.lookup k))).getD
          (parent.lookup k) := hget
    refine ⟨cache base₀ hashBlock parent', by simp [batchWrite, hloop], ⟨hbase₀, ?_⟩, rfl, ?_⟩
    · intro k e' hk
      rw [hget'] at hk
      cases hit : cacheCoins.lookup k with
      | none =>
        rw [hit] at hk
        exact hparent k e' hk
      | some child =>
        rw [hit] at hk
        exact merge_entryInv hparent (hlayer k child hit) hk
    · funext k
      simp only [seenCoins, hget']
      cases hit : cacheCoins.lookup k with
      | none => rfl
      | some child =>
        have hchild := hlayer k child hit
        exact WriteBack.seen_merge (fun e he => (hparent k e he).coherent) hchild.coherent
          hchild.held

theorem layerInv_empty (base : CCoinsView) : LayerInv base ∅ :=
  fun txid e h => absurd h (by simp)

theorem flushLayers_refines (n : Nat) (view : CCoinsView) (hn : view.depth = n) (h : view.Inv) :
    ∃ disk, flushLayers n view = some (db disk) ∧ disk.flat.get = view.seenCoins := by
  induction n generalizing view with
  | zero =>
    cases view with
    | db disk => exact ⟨disk, rfl, rfl⟩
    | cache base hashBlock cacheCoins => exact absurd hn (Nat.succ_ne_zero _)
  | succ n ih =>
    cases view with
    | db disk => exact absurd hn.symm (Nat.succ_ne_zero _)
    | cache base hashBlock cacheCoins =>
      obtain ⟨base', hwrite, hinv, hdepth, hseen⟩ := batchWrite_refines h
      have hn' : base'.depth = n := by
        rw [hdepth]
        exact Nat.succ.inj hn
      obtain ⟨disk, hflush, hdisk⟩ := ih base' hn' hinv
      refine ⟨disk, ?_, hdisk.trans hseen⟩
      rw [flushLayers, hwrite]
      exact hflush

end CCoinsView

end Lytix
