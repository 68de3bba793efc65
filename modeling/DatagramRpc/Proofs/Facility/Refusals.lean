import DatagramRpc.Facility.Service
import DatagramRpc.Proofs.Failure

/-!
# What the booking service refuses

Everything that can go wrong with a request is a fault of the handler's own kind, whatever its days,
times, numbers and names are. Settings are read by siblings of the same functions and refused as bad
requests; no request gets there.
-/

namespace DatagramRpc

variable {α β : Type}

/-- Whatever fails here fails as a request that the handler refuses. -/
def RefusedByHandler (x : Except Fault α) : Prop :=
  ∀ fault, x = .error fault → fault.kind = .handler

namespace RefusedByHandler

private theorem ok (a : α) : RefusedByHandler (.ok a : Except Fault α) := by
  intro fault h
  cases h

private theorem error (cause : HandlerCause) :
    RefusedByHandler (.error (.handler cause) : Except Fault α) := by
  intro fault h
  cases h
  rfl

private theorem bind {x : Except Fault α} {f : α → Except Fault β} (hx : RefusedByHandler x)
    (hf : ∀ a, RefusedByHandler (f a)) : RefusedByHandler (x >>= f) := by
  cases x with
  | error fault =>
    intro fault' h
    cases h
    exact hx fault rfl
  | ok a => exact hf a

private theorem mapM {f : α → Except Fault β} (hf : ∀ a, RefusedByHandler (f a)) (l : List α) :
    RefusedByHandler (l.mapM f) := by
  induction l with
  | nil => exact ok []
  | cons a l ih =>
    rw [List.mapM_cons]
    exact (hf a).bind fun b => ih.bind fun bs => ok (b :: bs)

end RefusedByHandler

open RefusedByHandler

/-! ## Days, times and slots -/

private theorem Weekday.refused_ofName (s : String) : RefusedByHandler (Weekday.ofName s) := by
  unfold Weekday.ofName
  simp only
  split
  · exact ok _
  · exact error _

private theorem ClockTime.refused_of (hour minute : Nat) :
    RefusedByHandler (ClockTime.of hour minute) := by
  unfold ClockTime.of
  split
  · exact ok _
  · exact error _

private theorem Slot.refused_of (day : Weekday) (start finish : ClockTime) :
    RefusedByHandler (Slot.of day start finish) := by
  unfold Slot.of
  split
  · exact ok _
  · exact error _

/-! ## Facilities -/

private theorem Catalog.refused_require (c : Catalog) (name : String) :
    RefusedByHandler (c.require name) := by
  unfold require
  split
  · exact ok _
  · exact error _

namespace Facility

private theorem refused_rate (f : Facility) (value : Float) : RefusedByHandler (f.rate value) := by
  unfold rate
  split
  · exact ok _
  · exact error _

private theorem refused_book (f : Facility) (fresh owner : String) (slot : Slot) :
    RefusedByHandler (f.book fresh owner slot) := by
  unfold book
  split
  · exact ok _
  · exact error _

private theorem refused_cancel (f : Facility) (id owner : String) :
    RefusedByHandler (f.cancel id owner) := by
  unfold cancel
  simp only
  split
  · exact ok _
  · exact error _

private theorem refused_reschedule (f : Facility) (fresh previous owner : String) (slot : Slot) :
    RefusedByHandler (f.reschedule fresh previous owner slot) := by
  unfold reschedule
  simp only
  split
  · exact error _
  split
  · exact error _
  exact (refused_cancel f previous owner).bind fun r => refused_book r.1 fresh owner slot

end Facility

/-! ## Requests -/

namespace BookingService

variable {supply : IdSupply} {s : BookingService} {owner : String}

private theorem refused_numberOf (text : String) : RefusedByHandler (numberOf text) := by
  unfold numberOf
  split
  · exact ok _
  · exact error _

private theorem refused_slotOf (day sh sm eh em : String) :
    RefusedByHandler (slotOf day sh sm eh em) := by
  refine (Weekday.refused_ofName day).bind fun day => ?_
  refine (refused_numberOf sh).bind fun startHour =>
    (refused_numberOf sm).bind fun startMinute => ?_
  refine (ClockTime.refused_of startHour startMinute).bind fun start => ?_
  refine (refused_numberOf eh).bind fun endHour => (refused_numberOf em).bind fun endMinute => ?_
  exact (ClockTime.refused_of endHour endMinute).bind fun finish => Slot.refused_of day start finish

theorem refused_read (c : Catalog) (args : List String) : RefusedByHandler (read c args) := by
  unfold read
  split
  · exact ok _
  · next name days _ =>
    refine (mapM Weekday.refused_ofName days).bind fun days => ?_
    refine bind ?_ fun listing => ok _
    exact (c.refused_require name).bind fun f => ok _
  · split
    · exact error _
    · exact ok _
  · next name => exact (c.refused_require name).bind fun f => ok _
  · exact error _

theorem refused_book (s : BookingService) (owner : String) (args : List String) :
    RefusedByHandler (s.book supply owner args) := by
  unfold book
  split
  · next name day sh sm eh em =>
    refine (refused_slotOf day sh sm eh em).bind fun slot => ?_
    refine (s.catalog.refused_require name).bind fun f => ?_
    exact (f.refused_book (supply s.issued) owner slot).bind fun g => ok _
  · exact error _

theorem refused_rate (s : BookingService) (owner name value : String) :
    RefusedByHandler (s.rate owner name value) := by
  unfold rate
  split
  · exact error _
  · next bits _ =>
    refine (s.catalog.refused_require name).bind fun f => ?_
    exact (f.refused_rate (Float.ofBits bits)).bind fun g => ok _

theorem refused_update (s : BookingService) (owner : String) (args : List String) :
    RefusedByHandler (s.update supply owner args) := by
  unfold update
  split
  · next previous name day sh sm eh em =>
    refine (refused_slotOf day sh sm eh em).bind fun slot => ?_
    refine (s.catalog.refused_require name).bind fun f => ?_
    exact (f.refused_reschedule (supply s.issued) previous owner slot).bind fun g => ok _
  · exact refused_rate s owner _ _
  · exact error _
  · exact error _
  · exact error _

theorem refused_cancel (s : BookingService) (owner : String) (args : List String) :
    RefusedByHandler (s.cancel owner args) := by
  unfold cancel
  split
  · next id name =>
    refine (s.catalog.refused_require name).bind fun f => ?_
    exact (f.refused_cancel id owner).bind fun r => ok _
  · exact error _

theorem refused_subscribe (c : Catalog) (call : Call) (request : Envelope) (args : List String) :
    RefusedByHandler (subscribe c call request args) := by
  unfold subscribe
  split
  · split
    · exact error _
    · split
      · exact error _
      · exact ok _
  · exact error _

end BookingService

end DatagramRpc
