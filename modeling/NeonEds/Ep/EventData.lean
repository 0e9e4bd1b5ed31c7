import NeonEds.Ep.Eds

/-!
# What the events hold

The users write behind the fields of `struct nevent`.  `SparesByte`: in a run nobody writes a byte of an
event again, and the event is not given back.

* `EdsInv.read_step`   such a step leaves the byte alone, whatever is allocated and given back around it;
* `eventData_kept`     so what is written into an event is read from it, by the agent that handles it too.
-/

set_option linter.unusedSectionVars false

namespace NeonEds
open Exec Mailbox

variable {T D E M σ β : Type} [DecidableEq T] [DecidableEq D] [DecidableEq E] [DecidableEq M]
  [Fintype T] [Fintype D]

section
variable (cfg : SchedConfig) (fuel : ℕ) (saturates : Bool) (A : Allocator σ E β) (sizeofNevent : ℕ)

def SparesByte (e : E) (offset : ℕ) : Eds T D E M σ → List (EdsStep T D E M β) → Prop
  | _, [] => True
  | s, step :: steps => (∀ x, step ≠ .write e offset x) ∧
      ∀ note s', runEdsStep cfg fuel saturates A sizeofNevent s step = .ok (note, s') →
        s'.live e = true ∧ SparesByte e offset s' steps

end

section
variable {cfg : SchedConfig} {fuel : ℕ} {saturates : Bool} {A : Allocator σ E β} {sizeofNevent : ℕ}
  {asks : M → ℕ → Prop} {own : M → E → Prop} {Rep : M → σ → (E → Option ℕ) → Prop}
  {read : σ → E → ℕ → β} {static : E → Bool} {s s' : Eds T D E M σ} {note : Option (Note T E)} {e : E}
  {offset : ℕ}

theorem EventMemsOk.read_write (hr : ∀ mem, A.Reads (asks mem) (Rep mem) read)
    {sys : MemEpa (SchedCtx 32 T EpaFn) T D E M σ} {live sent : E → Bool} {asked : E → ℕ}
    (h : EventMemsOk Rep static sys live sent asked) {e' : E} {offset' : ℕ} (he' : live e' = true)
    (ho' : offset' < asked e') (x : β) (he : live e = true) (ho : offset < asked e)
    (hne : e ≠ e' ∨ offset ≠ offset') :
    (sys.write A e' offset' x).read read e offset = sys.read read e offset := by
  obtain ⟨mem, hmem⟩ := h.owned e he
  obtain ⟨mem', hmem'⟩ := h.owned e' he'
  have hkept := Allocator.Apart.write_read hr h.holds (blocksOut_of_live he' hmem') ho' x
    (blocksOut_of_live he hmem) ho hne
  unfold MemEpa.read
  rw [MemEpa.write_ctx, hmem]
  unfold MemEpa.write
  rw [hmem']
  exact congrArg some hkept

theorem EventMemsOk.read_written (hr : ∀ mem, A.Reads (asks mem) (Rep mem) read)
    {sys : MemEpa (SchedCtx 32 T EpaFn) T D E M σ} {live sent : E → Bool} {asked : E → ℕ}
    (h : EventMemsOk Rep static sys live sent asked) (he : live e = true) (x : β) :
    (sys.write A e offset x).read read e offset = some x := by
  obtain ⟨mem, hmem⟩ := h.owned e he
  unfold MemEpa.read
  rw [MemEpa.write_ctx, hmem]
  unfold MemEpa.write
  rw [hmem]
  show some (read (Function.update sys.mems mem _ mem) e offset) = some x
  rw [Function.update_self, (hr mem).written]

/-- **A step leaves a byte alone** that it does not write, of an event that it does not give back. -/
theorem EdsInv.read_step (hA : A.Apart asks own Rep) (hr : ∀ mem, A.Reads (asks mem) (Rep mem) read)
    (hstatic : ∀ mem e, own mem e → static e = false) (hcfg : OneBucketPerLevel cfg)
    (h : EdsInv cfg Rep static s) {step : EdsStep T D E M β}
    (hl : LegalEdsStep sizeofNevent asks static s step)
    (hrun : runEdsStep cfg fuel saturates A sizeofNevent s step = .ok (note, s'))
    (hspares : ∀ x, step ≠ .write e offset x) (he : s.live e = true) (he' : s'.live e = true)
    (ho : offset < s.asked e) :
    s'.toMemEpa.read read e offset = s.toMemEpa.read read e offset ∧ s'.asked e = s.asked e := by
  cases step with
  | register t =>
    obtain ⟨⟨note₁, ctx⟩, hstep, hrun⟩ := bind_eq_ok.mp hrun
    obtain ⟨rfl, rfl⟩ := Prod.mk.inj (Except.ok.inj hrun)
    obtain ⟨ctx₁, hreg, hstep⟩ := bind_eq_ok.mp hstep
    obtain ⟨rfl, rfl⟩ := Prod.mk.inj (Except.ok.inj hstep)
    obtain ⟨sched, _, hreg⟩ := bind_eq_ok.mp hreg
    obtain rfl := Except.ok.inj hreg
    exact ⟨rfl, rfl⟩
  | schedule =>
    obtain ⟨⟨note₁, ctx⟩, hstep, hrun⟩ := bind_eq_ok.mp hrun
    obtain ⟨rfl, rfl⟩ := Prod.mk.inj (Except.ok.inj hrun)
    obtain ⟨m, hagents⟩ := h.agents
    obtain ⟨note₂, ctx₂, m', hstep', _, _, hne⟩ := hagents.schedule hcfg fuel saturates hl.1 hl.2.2
    obtain ⟨rfl, rfl⟩ := Prod.mk.inj (Except.ok.inj (hstep.symm.trans hstep'))
    obtain ⟨_, hevent⟩ := h.events.events.schedule hl.1 hl.2.1 hstep hne
    refine ⟨?_, rfl⟩
    unfold MemEpa.read
    show (ctx.event e).mem.map _ = _
    rw [hevent]
  | call op =>
    obtain ⟨⟨op', sys⟩, hcall, hrun⟩ := bind_eq_ok.mp hrun
    obtain ⟨rfl, rfl⟩ := Prod.mk.inj (Except.ok.inj hrun)
    exact h.events.read_call hA hr hstatic hl.2 hcall he he' ho
  | write e' offset' x =>
    obtain ⟨rfl, rfl⟩ := Prod.mk.inj (Except.ok.inj hrun)
    refine ⟨h.events.read_write hr hl.1 hl.2.1 x he ho ?_, rfl⟩
    by_contra hc
    obtain ⟨he, ho⟩ := not_or.mp hc
    rw [not_not.mp he, not_not.mp ho] at hspares
    exact hspares x rfl

theorem EdsInv.last (hcfg : OneBucketPerLevel cfg) (hA : A.Apart asks own Rep)
    (hstatic : ∀ mem e, own mem e → static e = false) {step : EdsStep T D E M β}
    (before : List (EdsStep T D E M β)) :
    ∀ {s s' : Eds T D E M σ} {notes : List (Note T E)}, EdsInv cfg Rep static s →
      LegalEdsRun cfg fuel saturates A sizeofNevent asks static s (before ++ [step]) →
      edsRun cfg fuel saturates A sizeofNevent s (before ++ [step]) = .ok (notes, s') →
      ∃ s₁ note, EdsInv cfg Rep static s₁ ∧ LegalEdsStep sizeofNevent asks static s₁ step ∧
        runEdsStep cfg fuel saturates A sizeofNevent s₁ step = .ok (note, s') := by
  induction before with
  | nil =>
    intro s s' notes h hl hrun
    obtain ⟨⟨note, s₁⟩, hstep, hrun⟩ := bind_eq_ok.mp hrun
    obtain ⟨_, rfl⟩ := Prod.mk.inj (Except.ok.inj hrun)
    exact ⟨s, note, h, hl.1, hstep⟩
  | cons x before ih =>
    intro s s' notes h hl hrun
    obtain ⟨note, s₁, notes₁, hstep, hrest⟩ := edsRun_cons hrun
    exact ih (h.step hcfg hA hstatic hl.1 hstep) (hl.2 note s₁ hstep) hrest

/-- **A run that spares a byte** of a live event: by induction on the steps. -/
theorem EdsInv.read_run (hA : A.Apart asks own Rep) (hr : ∀ mem, A.Reads (asks mem) (Rep mem) read)
    (hstatic : ∀ mem e, own mem e → static e = false) (hcfg : OneBucketPerLevel cfg)
    (steps : List (EdsStep T D E M β)) :
    ∀ {s s' : Eds T D E M σ} {notes : List (Note T E)}, EdsInv cfg Rep static s →
      LegalEdsRun cfg fuel saturates A sizeofNevent asks static s steps →
      SparesByte cfg fuel saturates A sizeofNevent e offset s steps → s.live e = true →
      offset < s.asked e → edsRun cfg fuel saturates A sizeofNevent s steps = .ok (notes, s') →
      s'.toMemEpa.read read e offset = s.toMemEpa.read read e offset := by
  induction steps with
  | nil =>
    intro s s' notes _ _ _ _ _ hrun
    obtain ⟨_, rfl⟩ := Prod.mk.inj (Except.ok.inj hrun)
    rfl
  | cons step steps ih =>
    intro s s' notes h hl hspares he ho hrun
    obtain ⟨note, s₁, notes₁, hstep, hrest⟩ := edsRun_cons hrun
    obtain ⟨he₁, hspares₁⟩ := hspares.2 note s₁ hstep
    obtain ⟨hread, hasked⟩ := h.read_step hA hr hstatic hcfg hl.1 hstep hspares.1 he he₁ ho
    rw [← hasked] at ho
    exact (ih (h.step hcfg hA hstatic hl.1 hstep) (hl.2 note s₁ hstep) hspares₁ he₁ ho hrest).trans hread

end

section
variable {P : HeapPort} {init : M → MemInit} {static : ℕ → Bool} {cfg : SchedConfig} {fuel : ℕ}
  {saturates : Bool} {junk sizeofNevent : ℕ} {s₀ s s' : Eds T D ℕ M MemObj}

/-- **What is written into an event is read from it**, until it is written again or the event is given
back. -/
theorem eventData_kept (hcfg : OneBucketPerLevel cfg) (hobj : MemObjects P init static)
    (h₀ : EdsStart cfg (fun mem => (init mem).Rep P) static s₀)
    (before steps : List (EdsStep T D ℕ M (BitVec 8))) {e offset : ℕ} {byte : BitVec 8}
    {notes notes' : List (Note T ℕ)}
    (hl : LegalEdsRun cfg fuel saturates (MemObj.allocator P junk) sizeofNevent
      (fun mem => (init mem).asks P) static s₀ (before ++ [.write e offset byte]))
    (hrun : edsRun cfg fuel saturates (MemObj.allocator P junk) sizeofNevent s₀
      (before ++ [.write e offset byte]) = .ok (notes, s))
    (hl' : LegalEdsRun cfg fuel saturates (MemObj.allocator P junk) sizeofNevent
      (fun mem => (init mem).asks P) static s steps)
    (hspares : SparesByte cfg fuel saturates (MemObj.allocator P junk) sizeofNevent e offset s steps)
    (hrun' : edsRun cfg fuel saturates (MemObj.allocator P junk) sizeofNevent s steps
      = .ok (notes', s')) :
    s'.toMemEpa.read MemObj.readByte e offset = some byte := by
  have hA := hobj.allocators junk
  have hr := fun mem => MemInit.reads P junk (hobj.ok mem)
  obtain ⟨s₁, note, h₁, hlast, hwrite⟩ := h₀.inv.last hcfg hA hobj.static before hl hrun
  have h := h₁.step hcfg hA hobj.static hlast hwrite
  obtain ⟨he, ho, _⟩ := hlast
  obtain ⟨rfl, rfl⟩ := Prod.mk.inj (Except.ok.inj hwrite)
  exact (h.read_run hA hr hobj.static hcfg steps hl' hspares he ho hrun').trans
    (h₁.events.read_written hr he byte)

end

/-- an event is created and written, another one is created beside it and sent -/
theorem oneEds_twoEvents : (edsRun cfg32 0 false (MemObj.allocator heapPort32 0) 16 oneEds
    [.call (.create 1 () 20), .write 1008 17 7#8, .call (.signal () 2 ())]).toOption.map
      (fun r => (r.2.live 1008, nqueueItems (r.2.ctx.queue ()))) = some (true, [1040]) := by
  decide +kernel

theorem eventData_kept_twoEvents : ∃ notes s notes' s',
    edsRun cfg32 0 false (MemObj.allocator heapPort32 0) 16 oneEds
      ([.call (.create 1 () 20)] ++ [.write 1008 17 7#8]) = .ok (notes, s) ∧
    edsRun cfg32 0 false (MemObj.allocator heapPort32 0) 16 s [.call (.signal () 2 ())]
      = .ok (notes', s') ∧ s'.toMemEpa.read MemObj.readByte 1008 17 = some 7#8 := by
  obtain ⟨⟨notes, s'⟩, hrun, hmade⟩ := eq_ok_of_map oneEds_twoEvents
  obtain ⟨hlive, _⟩ := Prod.mk.inj hmade
  obtain ⟨note₁, s₁, notes₁, h₁, hrun₁⟩ := edsRun_cons hrun
  obtain ⟨note₂, s₂, notes₂, h₂, hrun₂⟩ := edsRun_cons hrun₁
  obtain ⟨note₃, s₃, notes₃, h₃, hrun₃⟩ := edsRun_cons hrun₂
  obtain ⟨_, rfl⟩ := Prod.mk.inj (Except.ok.inj hrun₃)
  have hbefore : edsRun cfg32 0 false (MemObj.allocator heapPort32 0) 16 oneEds
      ([.call (.create 1 () 20)] ++ [.write 1008 17 7#8])
        = .ok (note₁.toList ++ (note₂.toList ++ []), s₂) := by
    show (runEdsStep _ _ _ _ _ oneEds (.call (.create 1 () 20)) >>= _) = _
    rw [h₁, ok_bind]
    show ((runEdsStep _ _ _ _ _ s₁ (.write 1008 17 7#8) >>= _) >>= _) = _
    rw [h₂]
    rfl
  have hspares : SparesByte cfg32 0 false (MemObj.allocator heapPort32 0) 16 1008 17 s₂
      [.call (.signal () 2 ())] := by
    refine ⟨fun x hx => (by cases hx), fun note s hs => ⟨?_, trivial⟩⟩
    obtain ⟨_, rfl⟩ := Prod.mk.inj (Except.ok.inj (hs.symm.trans h₃))
    exact hlive
  have hlegal : LegalEdsRun cfg32 0 false (MemObj.allocator heapPort32 0) 16
      (fun mem => (heap200Init mem).asks heapPort32) (fun _ => false) oneEds
      ([.call (.create 1 () 20)] ++ [.write 1008 17 7#8]) := by
    refine ⟨⟨id, by decide, by decide⟩, fun note s hs => ⟨?_, fun _ _ _ => trivial⟩⟩
    obtain ⟨r, hr, hmade⟩ := eq_ok_of_map oneEds_create
    obtain rfl := Except.ok.inj (hr.symm.trans hs)
    simp only [Prod.mk.injEq] at hmade
    obtain ⟨_, hlive, hasked⟩ := hmade
    exact ⟨hlive, Nat.lt_of_lt_of_eq (by decide) hasked.symm, by decide⟩
  have hlegal' : LegalEdsRun cfg32 0 false (MemObj.allocator heapPort32 0) 16
      (fun mem => (heap200Init mem).asks heapPort32) (fun _ => false) s₂ [.call (.signal () 2 ())] :=
    ⟨⟨id, by decide, by decide⟩, fun _ _ _ => trivial⟩
  exact ⟨_, s₂, notes₂, s₃, hbefore, hrun₂, eventData_kept cfg32_oneBucketPerLevel heap200Init_objects
    oneEds_start _ _ hlegal hbefore hlegal' hspares hrun₂⟩

end NeonEds
