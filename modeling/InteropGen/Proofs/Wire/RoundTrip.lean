import InteropGen.Proofs.Transfer.Hosts
import InteropGen.Proofs.Wire.Messages

/-!
# The round trip over the wire

For every message that is accepted with a wire codec, `Encode` and `Decode` make the same calls of the
runtime, and `Decode` gives back what `Encode` wrote.

* Of the runtime it is assumed only that a read returns what the matching write was handed. The
  codec may follow other messages on the wire and be followed by others.
* The object that is read into may hold anything. Its fields take the values of the message; nothing
  else of it changes.
* A field of enum type holds a member whose number has 32 bits, an array of several dimensions has its
  declared shape. All other values are left to the runtime.
-/

set_option autoImplicit false

namespace InteropGen

open CSharp

variable {t : Target}

/-- The codec methods of an accepted message. -/
theorem codec_of_accepted {s : StructType} {code : DeclarationCode}
    (accepted : t.structCode true s = .ok code) (distinguished : s.isDistinguished = true) :
    ∃ c, code.units.values = some ⟨s.name.enclosing, .valueClass c⟩ ∧
      c.codec = some (bodyOf (Target.views s) t.encode, bodyOf (Target.views s) t.decode) ∧
      ∀ f ∈ Target.views s, f.shape.Encodable := by
  obtain ⟨c, transfers, bodies, _, hunits⟩ := structCode_cases accepted
  have hcodec := bodies.codec
  rw [distinguished, Bool.and_self, if_pos rfl] at hcodec
  exact ⟨c, by rw [hunits], hcodec, forall_mem_views (structCode_encodable accepted distinguished)⟩

/-- The two methods make the same calls in the same order, and a message that was encoded is decoded
as it was. -/
theorem wire_round_trip (s : StructType) (code : DeclarationCode)
    (accepted : t.structCode true s = .ok code) (distinguished : s.isDistinguished = true) :
    ∃ c encode decode, code.units.values = some ⟨s.name.enclosing, .valueClass c⟩ ∧
      c.codec = some (encode, decode) ∧
      bodyCalls? .writer encode [] = some s.wireCalls ∧
      bodyCalls? .reader decode [] = some s.wireCalls ∧
      ∀ (m : Machine) (lib : Library) (path : String) (values : String → Value) (st : State),
        (∀ f ∈ s.fields, ∀ e, f.type.shape = .enum e → HostsEnum m t e) →
        (∀ f ∈ s.fields, t.layout.Sendable f.type.shape (values f.name)) →
        st.self = .record path values →
        ∃ items, List.Forall₂ WireItem.Answers items s.wireCalls ∧
          execAll m lib encode [] st = some ([], { st with wire := st.wire ++ items }) ∧
          ∀ (other : String) (olds : String → Value) (remaining : List WireItem) (st' : State),
            st'.self = .record other olds → st'.wire = items ++ remaining →
            execAll m lib decode [] st' = some ([], { st' with
              self := .record other fun name =>
                if name ∈ s.fields.map (·.name) then values name else olds name
              wire := remaining }) := by
  obtain ⟨c, hc, hcodec, hencodable⟩ := codec_of_accepted accepted distinguished
  have hencode : bodyCalls? .writer (bodyOf (Target.views s) t.encode) [] = some s.wireCalls :=
    bodyCalls_flatMap _ _ _ fun f hf => t.encode_calls 0 f [] (hencodable f hf)
  have hdecode : bodyCalls? .reader (bodyOf (Target.views s) t.decode) [] = some s.wireCalls :=
    bodyCalls_flatMap _ _ _ fun f hf => t.decode_calls 0 f [] (hencodable f hf)
  refine ⟨c, _, _, hc, hcodec, hencode, hdecode, ?_⟩
  intro m lib path values st henums hvalues hself
  obtain ⟨items, hitems⟩ := SendsFields.exists (Target.views s) hencodable
    (forall_mem_views hvalues)
  have hwritten := exec_encodeFields m lib hitems path [] st hself
  -- what was written are the items, so these answer the calls of the body
  obtain ⟨_, answers, hanswers, hmoves⟩ := bodyCalls_sound m lib .writer _ _ _ _ _ _ hencode hwritten
  have hsame : items = answers := List.append_cancel_left hmoves
  refine ⟨items, hsame ▸ hanswers, hwritten, ?_⟩
  intro other olds remaining st' hself' hwire
  have henum : ∀ f ∈ Target.views s, ∀ en, f.shape = .enum en → m.isEnum en.name.dotted = true :=
    forall_mem_views fun f hf en hshape => (henums f hf en hshape).declares.1
  have hread := exec_decodeFields m lib hitems henum other olds remaining [] st' hself' hwire
  rw [views_names] at hread
  exact hread

namespace Radar

def mode : EnumType := ⟨.ofSegments ["Radar", "Mode"], ["SEARCH", "FOLLOW"]⟩

/-- A message with a field of each kind. -/
def plot : StructType :=
  ⟨.ofSegments ["Radar", "Plot"],
    [⟨"mode", .enum mode⟩, ⟨"gains", .fixedArray (.primitive .i16) [2, 3]⟩,
      ⟨"raw", .fixedArray (.primitive .octet) [64]⟩, ⟨"names", .sequence .narrowString 4⟩,
      ⟨"id", .primitive .u64⟩], some "topic"⟩

def messages : Family := ⟨[plot], [mode]⟩

theorem messages_compiles : messages.Compiles target true where
  accepted := by
    simp only [messages, List.forall_mem_cons]
    exact ⟨⟨_, rfl⟩, by simp⟩
  structs := by
    simp only [messages, List.forall_mem_cons]
    simp [plot, TypeNode.shape, Shape.structs, Shape.arrayOf]
  enums := by
    simp only [messages, List.forall_mem_cons]
    simp [plot, TypeNode.shape, Shape.enums, Shape.arrayOf]
  paths := by decide
  distinct := by
    simp only [messages, List.forall_mem_cons]
    exact ⟨by decide, by simp⟩
  bounds := by
    simp only [messages, List.forall_mem_cons]
    simp [plot, TypeNode.shape, Shape.arrayOf]

/-- The machine of the messages. -/
def receiver : Machine :=
  { machine with decls := messages.decls target true }

def plotValues : String → Value
  | "mode" => .member "Radar.Mode" 1
  | "gains" => Layout.jagged.arrayValue [2, 3] fun idx => .int (flat [2, 3] idx)
  | "raw" => .array 1 (List.replicate 64 (.int 7))
  | "names" => .list [.text [72, 105]]
  | "id" => .int 42
  | _ => .null

theorem plotValues_sendable :
    ∀ f ∈ plot.fields, target.layout.Sendable f.type.shape (plotValues f.name) := by
  simp only [plot, List.forall_mem_cons]
  refine ⟨⟨1, by decide, rfl⟩, fun _ => ⟨fun idx => .int (flat [2, 3] idx), rfl⟩, fun h => absurd h (by decide), trivial, trivial,
    by simp⟩

/-- Before a plot is encoded. -/
def plotState : State :=
  { before with self := .record "Radar.Plot" plotValues }

theorem plot_enums : ∀ f ∈ plot.fields, ∀ e, f.type.shape = .enum e → HostsEnum receiver target e := by
  have compiled : Compiled receiver target true plot :=
    messages.compiled messages_compiles rfl plot (by simp [messages])
  intro f hf e hshape
  exact compiled.hosts.enums f hf e (by simp [hshape, Shape.enums])

end Radar

theorem plot_round_trip :
    ∃ code c encode decode items, Radar.target.structCode true Radar.plot = .ok code ∧
      Radar.plot.isDistinguished = true ∧
      code.units.values = some ⟨Radar.plot.name.enclosing, .valueClass c⟩ ∧
      c.codec = some (encode, decode) ∧
      bodyCalls? .writer encode [] = some Radar.plot.wireCalls ∧
      bodyCalls? .reader decode [] = some Radar.plot.wireCalls ∧
      Radar.plot.wireCalls.length = 10 ∧
      execAll Radar.receiver (Radar.receiver.library 0) encode [] Radar.plotState =
        some ([], { Radar.plotState with wire := items }) ∧
      execAll Radar.receiver (Radar.receiver.library 0) decode []
          { Radar.before with self := .record "Radar.Plot" fun _ => .null, wire := items } =
        some ([], { Radar.before with
          self := .record "Radar.Plot" fun name =>
            if name ∈ ["mode", "gains", "raw", "names", "id"] then Radar.plotValues name else .null
          wire := [] }) := by
  obtain ⟨code, haccepted⟩ := Radar.messages_compiles.accepted Radar.plot (by simp [Radar.messages])
  obtain ⟨c, encode, decode, hc, hcodec, hencode, hdecode, hround⟩ :=
    wire_round_trip Radar.plot code haccepted rfl
  obtain ⟨items, _, hwritten, hread⟩ := hround Radar.receiver (Radar.receiver.library 0) "Radar.Plot"
    Radar.plotValues Radar.plotState Radar.plot_enums Radar.plotValues_sendable rfl
  exact ⟨code, c, encode, decode, items, haccepted, rfl, hc, hcodec, hencode, hdecode, by decide,
    hwritten, hread "Radar.Plot" (fun _ => .null) [] _ rfl (List.append_nil items).symm⟩

end InteropGen
