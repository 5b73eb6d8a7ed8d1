import CqlWire.Proofs.Link

/-!
This module contains what a sender makes of its orders: it calls a packer for each of them, flushes
it in the end, and sends all segments that are ready by then.
-/

namespace CqlWire

theorem PayloadLimit.ofNat?_eq_some_iff {value : Nat} {limit : PayloadLimit} :
    ofNat? value = some limit ↔ limit.value = value := by
  unfold ofNat?
  constructor
  · intro h
    split at h
    · cases h
      rfl
    · cases h
  · rintro rfl
    rw [dif_pos ⟨limit.pos, limit.le⟩]

theorem Settings.packer_eq_ok_iff {settings : Settings} {dialect : Dialect} {packer : Packer Unit} :
    settings.packer dialect .trivial = .ok packer
      ↔
    ∃ limit : PayloadLimit, limit.value = settings.maxSegmentPayload
      ∧ packer = .ofLimit dialect .trivial limit false := by
  simp only [← PayloadLimit.ofNat?_eq_some_iff]
  unfold Settings.packer validate Packer.ofLimit?
  cases PayloadLimit.ofNat? settings.maxSegmentPayload with
  | none => simp [bind, Except.bind]
  | some limit => simp [bind, Except.bind, eq_comm]

namespace Link

open Packer

def Order.call? : Order → Except Failure (Call Unit)
  | .send frame? => do pure (.add ⟨← frame?, (), .byKey⟩)
  | .flush => pure .flush

section Orders

variable {packer : Packer Unit} {order : Order} {call : Call Unit}

theorem Order.run_of_call (horder : packer.dialect.payloadOrder = .byKey)
    (h : order.call? = .ok call) :
    order.run packer = (do
      let ready ← (packer.call call).segments
      pure (ready.map (·.1), (packer.call call).packer)) := by
  cases order with
  | send frame? =>
    obtain ⟨frame, rfl, hcall⟩ := exists_of_bind_eq_ok h
    cases hcall
    rw [call_add_of_order horder]
    rfl
  | flush =>
    cases h
    rfl

theorem Order.exists_call_of_run {result : List Segment × Packer Unit}
    (h : order.run packer = .ok result) : ∃ call, order.call? = .ok call := by
  cases order with
  | send frame? =>
    obtain ⟨frame, rfl, _⟩ := exists_of_bind_eq_ok h
    exact ⟨_, rfl⟩
  | flush => exact ⟨_, rfl⟩

theorem Order.run_eq_ok_iff {next : Packer Unit} {segments : List Segment}
    (horder : packer.dialect.payloadOrder = .byKey) :
    order.run packer = .ok (segments, next)
      ↔
    ∃ call ready, order.call? = .ok call ∧ (packer.call call).segments = .ok ready
      ∧ segments = ready.map (·.1) ∧ next = (packer.call call).packer := by
  constructor
  · intro h
    obtain ⟨call, hcall⟩ := exists_call_of_run h
    rw [run_of_call horder hcall] at h
    obtain ⟨ready, hready, heq⟩ := exists_of_bind_eq_ok h
    cases heq
    exact ⟨call, ready, hcall, hready, rfl, rfl⟩
  · rintro ⟨call, ready, hcall, hready, rfl, rfl⟩
    rw [run_of_call horder hcall]
    rw [hready]
    rfl

theorem pack.go_eq_ok_iff {done segments : List Segment} {orders : List Order}
    (horder : packer.dialect.payloadOrder = .byKey) :
    pack.go packer done orders = .ok segments
      ↔
    ∃ calls ready, orders.mapM Order.call? = .ok calls
      ∧ packer.Delivers (calls ++ [.flush]) ready ∧ segments = done ++ ready.map (·.1) := by
  induction orders generalizing packer done with
  | nil =>
    have hflush : packer.Delivers [.flush] packer.flush.1.toList :=
      delivers_cons_iff.2 ⟨_, [], rfl, delivers_nil_iff.2 rfl, (List.append_nil _).symm⟩
    constructor
    · intro h
      cases h
      exact ⟨[], _, rfl, hflush, rfl⟩
    · rintro ⟨calls, ready, hcalls, hdelivers, rfl⟩
      cases hcalls
      have hready : ready = packer.flush.1.toList := hdelivers.2.trans hflush.2.symm
      rw [hready]
      rfl
  | cons order rest ih =>
    have hnext (call : Call Unit) : (packer.call call).packer.dialect.payloadOrder = .byKey := by
      rw [dialect_call]
      exact horder
    constructor
    · intro h
      obtain ⟨⟨_, next⟩, hrun, hrest⟩ := exists_of_bind_eq_ok h
      obtain ⟨call, ready, hcall, hready, rfl, rfl⟩ := (Order.run_eq_ok_iff horder).1 hrun
      obtain ⟨calls, more, hcalls, hmore, rfl⟩ := (ih (hnext call)).1 hrest
      refine ⟨call :: calls, ready ++ more, ?_, ?_, ?_⟩
      · exact mapM_cons_eq_ok_iff.2 ⟨call, calls, hcall, hcalls, rfl⟩
      · exact delivers_cons_iff.2 ⟨ready, more, hready, hmore, rfl⟩
      · rw [List.map_append, List.append_assoc]
    · rintro ⟨_, _, hcalls, hdelivers, rfl⟩
      obtain ⟨call, calls, hcall, hrest, rfl⟩ := mapM_cons_eq_ok_iff.1 hcalls
      obtain ⟨ready, more, hready, hmore, rfl⟩ := delivers_cons_iff.1 hdelivers
      rw [pack.go]
      rw [(Order.run_eq_ok_iff horder).2 ⟨call, ready, hcall, hready, rfl, rfl⟩]
      apply (ih (hnext call)).2
      refine ⟨calls, more, hrest, hmore, ?_⟩
      rw [List.map_append, List.append_assoc]

end Orders

/--
What is sent is what a packer delivers that is called for each order and flushed in the end. Nothing
is sent if one of the calls fails, or the limit of the settings is out of range.
-/
theorem send_eq_ok_iff {settings : Settings} {sender : Role} {orders : List Order}
    {sent : List (Segment × SegmentParts)} :
    send settings sender orders = .ok sent
      ↔
    ∃ (limit : PayloadLimit) (calls : List (Call Unit)) (ready : List (Segment × Unit)),
      limit.value = settings.maxSegmentPayload
        ∧ orders.mapM Order.call? = .ok calls
        ∧ (ofLimit (.ofRole sender settings.compressor) .trivial limit false).Delivers
            (calls ++ [.flush]) ready
        ∧ (ready.map (·.1)).mapM
            (fun segment => do pure (segment, ← segment.encode settings.compressor))
          = .ok sent := by
  constructor
  · intro h
    obtain ⟨segments, hpack, hencode⟩ := exists_of_bind_eq_ok h
    obtain ⟨packer, hpacker, hgo⟩ := exists_of_bind_eq_ok hpack
    obtain ⟨limit, hlimit, rfl⟩ := Settings.packer_eq_ok_iff.1 hpacker
    obtain ⟨calls, ready, hcalls, hdelivers, rfl⟩ := (pack.go_eq_ok_iff rfl).1 hgo
    exact ⟨limit, calls, ready, hlimit, hcalls, hdelivers, hencode⟩
  · rintro ⟨limit, calls, ready, hlimit, hcalls, hdelivers, hencode⟩
    have hpack : pack settings sender orders = .ok (ready.map (·.1)) := by
      unfold pack
      rw [Settings.packer_eq_ok_iff.2 ⟨limit, hlimit, rfl⟩]
      exact (pack.go_eq_ok_iff rfl).2 ⟨calls, ready, hcalls, hdelivers, rfl⟩
    unfold send
    rw [hpack]
    exact hencode

def Order.frame? : Order → Option Frame
  | .send frame? => frame?.toOption
  | .flush => none

theorem submitted_of_mapM {orders : List Order} {calls : List (Call Unit)}
    (h : orders.mapM Order.call? = .ok calls) :
    submitted calls = (orders.filterMap Order.frame?).map (⟨·, (), .byKey⟩) := by
  induction orders generalizing calls with
  | nil =>
    cases h
    rfl
  | cons order rest ih =>
    obtain ⟨call, more, hcall, hmore, rfl⟩ := mapM_cons_eq_ok_iff.1 h
    have hitem : call.item? = order.frame?.map (⟨·, (), .byKey⟩) := by
      cases order with
      | send frame? =>
        obtain ⟨frame, rfl, heq⟩ := exists_of_bind_eq_ok hcall
        cases heq
        rfl
      | flush =>
        cases hcall
        rfl
    have hrest := ih hmore
    unfold submitted at hrest ⊢
    rw [List.filterMap_cons, List.filterMap_cons]
    rw [hitem, hrest]
    cases order.frame? <;> rfl

/-- All frames that are sent are received, into whatever pieces the stream is cut on its way. -/
theorem receive_of_send {settings : Settings} {sender : Role} {orders : List Order}
    {sent : List (Segment × SegmentParts)} {pieces : List Bytes}
    (hmade : ∀ frame ∈ orders.filterMap Order.frame?, frame.MadeBy sender)
    (h : send settings sender orders = .ok sent) (hpieces : pieces.flatten = wire sent) :
    let receiver := receive sender.peer settings.compressor pieces
    receiver.fault = none
      ∧ receiver.stream = SegmentStream.ofCompressor settings.compressor
      ∧ receiver.unpacker = .empty
      ∧ ∃ arrived : List Frame, arrived.Perm (orders.filterMap Order.frame?)
        ∧ receiver.received = arrived.map fun frame =>
            .ok (arrival (.ofRole sender settings.compressor) (⟨frame, (), .byKey⟩ : Item Unit)) := by
  intro receiver
  obtain ⟨limit, calls, ready, hlimit, hcalls, ⟨hok, hready⟩, hencode⟩ := send_eq_ok_iff.1 h
  obtain ⟨parcels, hemitted, hsound, hshort, hlong⟩ :=
    exists_parcels_of_run (.ofRole sender settings.compressor) .trivial limit false calls hok
  have hperm := perm_of_filter_eq hshort hlong
  rw [submitted_of_mapM hcalls] at hperm
  have hitem : ∀ item ∈ parcels.flatMap Parcel.items, ∃ frame ∈ orders.filterMap Order.frame?,
      ⟨frame, (), .byKey⟩ = item := fun item hmem => List.mem_map.1 (hperm.subset hmem)
  have hmade : ∀ item ∈ parcels.flatMap Parcel.items, item.frame.MadeBy sender := by
    intro item hmem
    obtain ⟨frame, hframe, rfl⟩ := hitem item hmem
    exact hmade frame hframe
  obtain ⟨sent', hsent', hreceive⟩ := receive_of_parcels rfl hsound hmade
  rw [hready, hemitted] at hencode
  obtain rfl : sent = sent' := Except.ok.inj (hencode.symm.trans hsent')
  have hreceiver : receiver = _ := hreceive pieces hpieces
  rw [hreceiver]
  refine ⟨rfl, rfl, rfl, (parcels.flatMap Parcel.items).map (·.frame), ?_, ?_⟩
  · have hframes := hperm.map (·.frame)
    rw [List.map_map] at hframes
    rw [← List.map_id (orders.filterMap Order.frame?)]
    exact hframes
  · rw [List.map_map]
    apply List.map_congr_left
    intro item hmem
    obtain ⟨frame, _, rfl⟩ := hitem item hmem
    rfl

end Link

end CqlWire
