import NeonEds.Lib.PayloadStore
import NeonEds.Mm.HeapRuns

/-!
# What the payloads of the heap hold

`HeapRun` is a legal run of the heap with its answers, `payloads P m live` the bytes of the payloads
that are out.

* `HeapOk.alloc_payloads`, `HeapOk.free_payloads`, `HeapOk.write_payloads`   one call;
* `heapRun_refines`      for its users the heap is a store of byte arrays: links, headers and joined blocks
                         never reach a payload that is out;
* `heapRun_readBack`     so a byte that was written is read back.
-/

namespace NeonEds
open Exec

section
variable (P : HeapPort)

/-- a legal run, every call with the pointer that it answered -/
inductive HeapRun : Nmem → (ℕ → Option ℕ) → List (HeapOp × ℕ) → Nmem → (ℕ → Option ℕ) → Prop where
  | nil {m : Nmem} {live : ℕ → Option ℕ} : HeapRun m live [] m live
  | cons {m m₁ m' : Nmem} {live live' : ℕ → Option ℕ} {op : HeapOp} {r : ℕ} {ops : List (HeapOp × ℕ)}
      (hl : LegalHeapOp P m live op) (hrun : runHeapOp P m op = .ok (r, m₁))
      (h : HeapRun m₁ (heapLiveAfter live op r) ops m' live') : HeapRun m live ((op, r) :: ops) m' live'

/-- `n` bytes of the storage -/
def bytesAt (st : Storage) (p n : ℕ) : List (BitVec 8) := (List.range n).map fun i => st.byte (p + i)

/-- the bytes of the payloads that are out -/
def payloads (m : Nmem) (live : ℕ → Option ℕ) : PayloadStore (BitVec 8) :=
  fun p => (live p).map fun _ => bytesAt m.storage p (payload P m p)

def HeapOp.toStore : HeapOp → StoreOp (BitVec 8)
  | .alloc size => .alloc size
  | .free mem => .free mem
  | .write mem offset byte => .write mem offset byte

end

section
variable {P : HeapPort} {base size : ℕ} {m m' : Nmem} {bs fl : List ℕ}
  {live live' : ℕ → Option ℕ} {c k p n : ℕ}

theorem bytesAt_length (st : Storage) (p n : ℕ) : (bytesAt st p n).length = n := by
  rw [bytesAt, List.length_map, List.length_range]

theorem bytesAt_getElem? {st : Storage} {i : ℕ} (hi : i < n) :
    (bytesAt st p n)[i]? = some (st.byte (p + i)) := by
  rw [bytesAt, List.getElem?_map, List.getElem?_range hi]
  rfl

theorem bytesAt_congr {st st' : Storage} (h : ∀ i < n, st'.byte (p + i) = st.byte (p + i)) :
    bytesAt st' p n = bytesAt st p n :=
  List.map_congr_left fun i hi => h i (List.mem_range.mp hi)

theorem bytesAt_update (st : Storage) (p : ℕ) {offset : ℕ} (ho : offset < n) (byte : BitVec 8) :
    bytesAt { st with byte := Function.update st.byte (p + offset) byte } p n
      = (bytesAt st p n).set offset byte := by
  apply List.ext_getElem?
  intro i
  rw [List.getElem?_set, bytesAt_length]
  by_cases hi : i < n
  · rw [bytesAt_getElem? hi, bytesAt_getElem? hi, if_pos ho]
    split
    · rename_i hio
      rw [hio]
      exact congrArg some (Function.update_self ..)
    · exact congrArg some (Function.update_of_ne (by omega) ..)
  · rw [if_neg (by omega), List.getElem?_eq_none (by rw [bytesAt_length]; omega),
      List.getElem?_eq_none (by rw [bytesAt_length]; omega)]

theorem payloads_none (h : live p = none) : payloads P m live p = none := by
  unfold payloads
  rw [h]
  rfl

theorem payloads_some (h : live p = some n) :
    payloads P m live p = some (bytesAt m.storage p (payload P m p)) := by
  unfold payloads
  rw [h]
  rfl

theorem payloads_read {xs : List (BitVec 8)} {i : ℕ} {byte : BitVec 8}
    (hp : payloads P m live p = some xs) (hi : xs[i]? = some byte) :
    (live p).isSome ∧ i < payload P m p ∧ m.storage.byte (p + i) = byte := by
  cases hlive : live p with
  | none =>
    rw [payloads_none hlive] at hp
    cases hp
  | some n =>
    rw [payloads_some hlive] at hp
    rw [← Option.some.inj hp] at hi
    have hlt : i < payload P m p := by
      have hlen := (List.getElem?_eq_some_iff.mp hi).1
      rw [bytesAt_length] at hlen
      exact hlen
    rw [bytesAt_getElem? hlt] at hi
    exact ⟨rfl, hlt, Option.some.inj hi⟩

namespace HeapOk

theorem payloads_eq (bs' : List ℕ) (hl : LiveOk P bs (blocksOf P m.storage) live)
    (hlive : live' p = live p)
    (hblock : ∀ b k, p = b + P.sizeofHeapPhy → used bs (blocksOf P m.storage) b = some k →
      used bs' (blocksOf P m'.storage) b = some k ∧
        ∀ i < k, m'.storage.byte (p + i) = m.storage.byte (p + i)) :
    payloads P m' live' p = payloads P m live p := by
  cases hp : live p with
  | none => rw [payloads_none hp, payloads_none (hlive.trans hp)]
  | some n =>
    obtain ⟨b, k, rfl, hb, _⟩ := hl.block p n hp
    obtain ⟨hb', hbytes⟩ := hblock b k rfl hb
    rw [payloads_some hp, payloads_some (hlive.trans hp), payload_eq hb, payload_eq hb']
    exact congrArg some (bytesAt_congr hbytes)

theorem alloc_payloads (h : HeapOk P base m bs fl) (hl : LiveOk P bs (blocksOf P m.storage) live)
    {r : ℕ} (h1 : 1 ≤ n) (hn : roundUp n P.sizeofHeapPhy < 2147483648)
    (hrun : heapAlloc P m n = .ok (r, m')) : PayloadStep (payloads P m live) (.alloc n) r
      (payloads P m' (heapLiveAfter live (.alloc n) r)) := by
  have hpos := P.sizeofHeapPhy_pos
  rw [heapLiveAfter_alloc]
  rcases heapAlloc_kept h h1 hn with ⟨c, st', bs', fl', k, hok, _, hnk, hnone, hused, hkept⟩ | ⟨_, hno⟩
  · rw [hrun] at hok
    obtain ⟨rfl, rfl⟩ := Prod.mk.inj (Except.ok.inj hok)
    have hself : used bs' (blocksOf P st') c = some k := by
      rw [hused, Function.update_self]
    have hafter : payloads P { m with storage := st' } (Function.update live (c + P.sizeofHeapPhy) (some n))
        = Function.update (payloads P m live) (c + P.sizeofHeapPhy)
          (some (bytesAt st' (c + P.sizeofHeapPhy) k)) := by
      funext p
      by_cases hp : p = c + P.sizeofHeapPhy
      · rw [hp, Function.update_self, payloads_some (Function.update_self ..), payload_eq hself]
      · rw [Function.update_of_ne hp]
        refine payloads_eq bs' hl (Function.update_of_ne hp ..) (fun b k' hb hbused => ?_)
        have hbc : b ≠ c := by omega
        refine ⟨?_, fun i hi => hkept b k' hbused hbc _ (by omega) (by omega)⟩
        rw [hused, Function.update_of_ne hbc]
        exact hbused
    have hfresh : payloads P m live (c + P.sizeofHeapPhy) = none := payloads_none (hl.fresh hnone)
    rw [if_neg (by omega), hafter]
    exact .alloc (by omega) hfresh (by rw [bytesAt_length]; exact hnk)
  · rw [hrun] at hno
    split at hno
    · cases hno
    · obtain ⟨rfl, rfl⟩ := Prod.mk.inj (Except.ok.inj hno)
      rw [if_pos rfl]
      exact .refused

theorem free_payloads (h : HeapOk P base m bs fl) (hl : LiveOk P bs (blocksOf P m.storage) live)
    (hc : used bs (blocksOf P m.storage) c = some k)
    (hrun : heapFree P m (c + P.sizeofHeapPhy) = .ok m') :
    payloads P m' (Function.update live (c + P.sizeofHeapPhy) none)
      = Function.update (payloads P m live) (c + P.sizeofHeapPhy) none := by
  obtain ⟨st', bs', fl', hok, _, hused, hkept⟩ := heapFree_kept h hc
  rw [hrun] at hok
  obtain rfl := Except.ok.inj hok
  funext p
  by_cases hp : p = c + P.sizeofHeapPhy
  · rw [hp, Function.update_self, payloads_none (Function.update_self ..)]
  · rw [Function.update_of_ne hp]
    refine payloads_eq bs' hl (Function.update_of_ne hp ..) (fun b k' hb hbused => ?_)
    have hbc : b ≠ c := by omega
    refine ⟨?_, fun i hi => hkept b k' hbused hbc _ (by omega) (by omega)⟩
    rw [hused, Function.update_of_ne hbc]
    exact hbused

/-- **A user** changes one byte of its own payload. -/
theorem write_payloads (h : HeapOk P base m bs fl) (hl : LiveOk P bs (blocksOf P m.storage) live)
    (hc : used bs (blocksOf P m.storage) c = some k) (hlive : live (c + P.sizeofHeapPhy) = some n)
    {offset : ℕ} (ho : offset < k) (byte : BitVec 8) :
    payloads P (writeByte m (c + P.sizeofHeapPhy + offset) byte) live
      = Function.update (payloads P m live) (c + P.sizeofHeapPhy)
        (some ((bytesAt m.storage (c + P.sizeofHeapPhy) k).set offset byte)) := by
  obtain ⟨_, hused⟩ := h.write hc ho byte
  funext p
  by_cases hp : p = c + P.sizeofHeapPhy
  · have hself : used bs
        (blocksOf P (writeByte m (c + P.sizeofHeapPhy + offset) byte).storage) c = some k := by
      rw [hused]
      exact hc
    rw [hp, Function.update_self, payloads_some hlive, payload_eq hself]
    exact congrArg some (bytesAt_update m.storage _ ho byte)
  · rw [Function.update_of_ne hp]
    refine payloads_eq bs hl rfl (fun b k' hb hbused => ⟨by rw [hused]; exact hbused, fun i hi => ?_⟩)
    have hcb := (used_eq_some.mp hc).1
    have hbb := (used_eq_some.mp hbused).1
    have hblk := P.sizeofHeapBlock_eq
    have hap := h.apart_used hbused (Or.inr hcb) (by omega)
    have hap' := h.apart_used hc (Or.inr hbb) (by omega)
    exact Function.update_of_ne (by omega) ..

end HeapOk

/-- **One call, for the users of the heap.** -/
theorem HeapState.step_payloads {op : HeapOp} {r : ℕ} (h : HeapState P base size m live)
    (hl : LegalHeapOp P m live op) (hrun : runHeapOp P m op = .ok (r, m')) :
    PayloadStep (payloads P m live) op.toStore r (payloads P m' (heapLiveAfter live op r)) := by
  rcases h with ⟨hunused, rfl⟩ | ⟨bs, fl, hok, hlive⟩
  · cases op with
    | alloc n =>
      -- the first request sets up the heap
      obtain ⟨m₀, hinit, hok, hused, _⟩ := heapInitAlloc_ok hunused n
      have hop : heapAlloc P m₀ n = .ok (r, m') := by
        rw [← hinit, ← hrun]
        unfold runHeapOp nmemAllocI
        rw [hunused.vfAlloc]
      have hnone : payloads P m (fun _ => none) = payloads P m₀ (fun _ => none) := by
        funext p
        rw [payloads_none rfl, payloads_none rfl]
      rw [hnone]
      exact hok.alloc_payloads (LiveOk.none hused) hl.1 hl.2 hop
    | free p => cases hl
    | write p offset byte => cases hl.1
  · cases op with
    | alloc n =>
      refine hok.alloc_payloads hlive hl.1 hl.2 ?_
      rw [← hrun]
      unfold runHeapOp nmemAllocI
      rw [hok.vfAlloc]
    | free p =>
      obtain ⟨n, hp⟩ := Option.isSome_iff_exists.mp hl
      obtain ⟨c, k, rfl, hc, _⟩ := hlive.block p n hp
      obtain ⟨m₁, hfree, hrun⟩ := bind_eq_ok.mp hrun
      obtain ⟨rfl, rfl⟩ := Prod.mk.inj (Except.ok.inj hrun)
      have hfree' : heapFree P m (c + P.sizeofHeapPhy) = .ok m₁ := by
        rw [← hfree]
        exact (if_pos hok.vfFree).symm
      show PayloadStep _ (.free (c + P.sizeofHeapPhy)) 0
        (payloads P m₁ (Function.update live (c + P.sizeofHeapPhy) none))
      rw [hok.free_payloads hlive hc hfree']
      exact .free (payloads_some hp)
    | write p offset byte =>
      obtain ⟨n, hp⟩ := Option.isSome_iff_exists.mp hl.1
      obtain ⟨c, k, rfl, hc, _⟩ := hlive.block p n hp
      have ho := hl.2
      rw [HeapOk.payload_eq hc] at ho
      obtain ⟨rfl, rfl⟩ := Prod.mk.inj (Except.ok.inj hrun)
      show PayloadStep _ (.write (c + P.sizeofHeapPhy) offset byte) 0
        (payloads P (writeByte m (c + P.sizeofHeapPhy + offset) byte) live)
      rw [hok.write_payloads hlive hc hp ho byte]
      have hbytes := payloads_some (P := P) (m := m) hp
      rw [HeapOk.payload_eq hc] at hbytes
      exact .write hbytes (by rw [bytesAt_length]; exact ho)

theorem HeapState.payload_le (h : HeapState P base size m live) (hp : live p = some n) :
    n ≤ payload P m p := by
  rcases h with ⟨_, rfl⟩ | ⟨bs, fl, hok, hlive⟩
  · cases hp
  · obtain ⟨b, k, rfl, hb, hnk⟩ := hlive.block p n hp
    rw [HeapOk.payload_eq hb]
    exact hnk

theorem HeapState.step_byte {op : HeapOp} {r i : ℕ} (h : HeapState P base size m live)
    (hl : LegalHeapOp P m live op) (hrun : runHeapOp P m op = .ok (r, m'))
    (hop : op.toStore.Spares p i) (hp : live p = some n) (hi : i < n) :
    m'.storage.byte (p + i) = m.storage.byte (p + i) := by
  have hget : (bytesAt m.storage p (payload P m p))[i]? = some (m.storage.byte (p + i)) :=
    bytesAt_getElem? (Nat.lt_of_lt_of_le hi (h.payload_le hp))
  obtain ⟨ys, hys, _, hbyte⟩ := (h.step_payloads hl hrun).kept hop (payloads_some hp) hget
  exact (payloads_read hys hbyte).2.2

theorem HeapRun.payloadRun {ops : List (HeapOp × ℕ)} (hrun : HeapRun P m live ops m' live')
    (h : HeapState P base size m live) : HeapState P base size m' live' ∧
      PayloadRun (payloads P m live) (ops.map fun x => (x.1.toStore, x.2)) (payloads P m' live') := by
  induction hrun with
  | nil => exact ⟨h, .nil⟩
  | cons hl hop _ ih =>
    obtain ⟨_, hres⟩ := h.step hl
    obtain ⟨h', hruns⟩ := ih (Or.inr (hres _ _ hop).1)
    exact ⟨h', .cons (h.step_payloads hl hop) hruns⟩

/-- **The heap refines a store of byte arrays.** -/
theorem heapRun_refines (h : NmemUnused P base size m) {ops : List (HeapOp × ℕ)}
    (hrun : HeapRun P m (fun _ => none) ops m' live') :
    PayloadRun (fun _ => none) (ops.map fun x => (x.1.toStore, x.2)) (payloads P m' live') :=
  (hrun.payloadRun (Or.inl ⟨h, rfl⟩)).2

theorem HeapRun.split {ops ops' : List (HeapOp × ℕ)} (h : HeapRun P m live (ops ++ ops') m' live') :
    ∃ m₁ live₁, HeapRun P m live ops m₁ live₁ ∧ HeapRun P m₁ live₁ ops' m' live' := by
  induction ops generalizing m live with
  | nil => exact ⟨m, live, .nil, h⟩
  | cons x ops ih =>
    obtain ⟨op, r⟩ := x
    cases h with
    | cons hl hop h =>
      obtain ⟨m₁, live₁, hfirst, hrest⟩ := ih h
      exact ⟨m₁, live₁, .cons hl hop hfirst, hrest⟩

/-- **A byte that was written is read back** until it is written again or its payload is given back. -/
theorem heapRun_readBack (h : NmemUnused P base size m) {ops ops' : List (HeapOp × ℕ)}
    {offset r : ℕ} {byte : BitVec 8}
    (hrun : HeapRun P m (fun _ => none) (ops ++ (.write p offset byte, r) :: ops') m' live')
    (hops : ∀ x ∈ ops', x.1.toStore.Spares p offset) :
    (live' p).isSome ∧ offset < payload P m' p ∧ m'.storage.byte (p + offset) = byte := by
  obtain ⟨m₁, live₁, hfirst, hrest⟩ := hrun.split
  obtain ⟨hstate, _⟩ := hfirst.payloadRun (Or.inl ⟨h, rfl⟩)
  cases hrest with
  | @cons _ m₂ _ _ _ _ _ _ hl hop hrest =>
    have hwritten : ∃ xs, payloads P m₂ live₁ p = some xs ∧ xs[offset]? = some byte := by
      have hstep := hstate.step_payloads hl hop
      generalize hafter : payloads P m₂ (heapLiveAfter live₁ (.write p offset byte) r) = τ at hstep
      cases hstep with
      | write hp ho =>
        refine ⟨_, (congrFun hafter p).trans (Function.update_self ..), ?_⟩
        exact List.getElem?_set_self ho
    obtain ⟨xs, hxs, hget⟩ := hwritten
    have hstate₂ : HeapState P base size m₂ _ := Or.inr ((hstate.step hl).2 _ _ hop).1
    obtain ⟨_, hruns⟩ := hrest.payloadRun hstate₂
    obtain ⟨ys, hys, _, hbyte⟩ := hruns.kept (fun x hx => by
      obtain ⟨y, hy, rfl⟩ := List.mem_map.mp hx
      exact hops y hy) hxs hget
    exact payloads_read hys hbyte

end

theorem heapRun_refines_heap200 : ∃ m' live', HeapRun heapPort32 heap200 (fun _ => none)
      [(.alloc 20, 1008), (.write 1008 23 7#8, 0)] m' live' ∧
    PayloadRun (fun _ => none) [(.alloc 20, 1008), (.write 1008 23 7#8, 0)]
      (payloads heapPort32 m' live') := by
  have hunused : NmemUnused heapPort32 1000 200 heap200 :=
    ⟨rfl, rfl, rfl, rfl, by decide, by decide, by decide, by decide, rfl⟩
  have h := heap200_alloc
  cases hop : runHeapOp heapPort32 heap200 (.alloc 20) with
  | error f =>
    rw [hop] at h
    cases h
  | ok x =>
    obtain ⟨r, m⟩ := x
    rw [hop] at h
    obtain ⟨hr, hpayload⟩ := Prod.mk.inj (Option.some.inj h)
    obtain rfl : r = 1008 := hr
    have hask : LegalHeapOp heapPort32 heap200 (fun _ => none) (.alloc 20) := ⟨by decide, by decide⟩
    have hwrite : LegalHeapOp heapPort32 m
        (heapLiveAfter (fun _ => none) (.alloc 20) 1008) (.write 1008 23 7#8) := by
      refine ⟨rfl, ?_⟩
      rw [show payload heapPort32 m 1008 = 24 from hpayload]
      decide
    have hrun := HeapRun.cons hask hop (.cons hwrite rfl .nil)
    exact ⟨_, _, hrun, heapRun_refines hunused hrun⟩

end NeonEds
