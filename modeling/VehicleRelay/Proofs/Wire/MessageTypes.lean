import VehicleRelay.Proofs.Wire.Layout
import VehicleRelay.Wire.Message

/-!
# Types of messages

The types of the messages that are declared for the vehicle server.  Each of their forms
is lawful.
-/

namespace VehicleRelay.Wire

inductive MessageType
  | value
  | batch
  | request
  | requests
  | setResult
  | setResults
  | getResult
  | getResults
  | status
  | dumpOptions
  | dumpReport
  | sampleRate
  | subscription
  | subscribe
  | unsubscribe
  | areaConfig
  | config
deriving DecidableEq, Repr

namespace MessageType

@[reducible]
def Message : MessageType → Type
  | .value => ValueMessage
  | .batch => BatchMessage
  | .request => RequestMessage
  | .requests => RequestsMessage
  | .setResult => SetResultMessage
  | .setResults => SetResultsMessage
  | .getResult => GetResultMessage
  | .getResults => GetResultsMessage
  | .status => StatusMessage
  | .dumpOptions => DumpOptionsMessage
  | .dumpReport => DumpReportMessage
  | .sampleRate => SampleRateMessage
  | .subscription => SubscriptionMessage
  | .subscribe => SubscribeMessage
  | .unsubscribe => UnsubscribeMessage
  | .areaConfig => AreaConfigMessage
  | .config => ConfigMessage

instance wireMessage : (type : MessageType) → WireMessage type.Message
  | .value => inferInstanceAs (WireMessage ValueMessage)
  | .batch => inferInstanceAs (WireMessage BatchMessage)
  | .request => inferInstanceAs (WireMessage RequestMessage)
  | .requests => inferInstanceAs (WireMessage RequestsMessage)
  | .setResult => inferInstanceAs (WireMessage SetResultMessage)
  | .setResults => inferInstanceAs (WireMessage SetResultsMessage)
  | .getResult => inferInstanceAs (WireMessage GetResultMessage)
  | .getResults => inferInstanceAs (WireMessage GetResultsMessage)
  | .status => inferInstanceAs (WireMessage StatusMessage)
  | .dumpOptions => inferInstanceAs (WireMessage DumpOptionsMessage)
  | .dumpReport => inferInstanceAs (WireMessage DumpReportMessage)
  | .sampleRate => inferInstanceAs (WireMessage SampleRateMessage)
  | .subscription => inferInstanceAs (WireMessage SubscriptionMessage)
  | .subscribe => inferInstanceAs (WireMessage SubscribeMessage)
  | .unsubscribe => inferInstanceAs (WireMessage UnsubscribeMessage)
  | .areaConfig => inferInstanceAs (WireMessage AreaConfigMessage)
  | .config => inferInstanceAs (WireMessage ConfigMessage)

def form (type : MessageType) : MessageForm type.Message :=
  WireMessage.form

theorem form_lawful (type : MessageType) : type.form.Lawful where
  inRange := by
    cases type <;>
      simp only [form, WireMessage.form, fieldNumberBound, List.forall_mem_cons,
        List.not_mem_nil, Nat.reduceLT, Nat.zero_lt_one, IsEmpty.forall_iff, implies_true, and_self]
  get_initial := by
    cases type <;>
    · simp only [form, WireMessage.form, List.forall_mem_cons, List.not_mem_nil,
        IsEmpty.forall_iff, implies_true, and_true]
      and_intros <;> rfl
  apart := by
    cases type <;>
      simp only [form, WireMessage.form, MessageField.apart_iff, List.pairwise_cons,
        List.Pairwise.nil, List.forall_mem_cons, List.not_mem_nil, Nat.reduceEqDiff, ne_eq,
        not_false_eq_true, IsEmpty.forall_iff, implies_true, and_true]
  get_set := by
    cases type <;>
      simp only [form, WireMessage.form, List.forall_mem_cons, List.not_mem_nil,
        IsEmpty.forall_iff, implies_true, and_true]
  ext := by
    cases type <;>
    · rintro ⟨⟩ ⟨⟩ same
      simp only [form, WireMessage.form, List.forall_mem_cons] at same
      simp only [same]

end MessageType

end VehicleRelay.Wire
