import EntitySchema.Proofs.CodeReading
import EntitySchema.Proofs.EmittedPaths

/-!
# The tables of the root module

The root module has a match over component numbers for the positions, one for each of the two sums,
two matches over the numbers of commands, and a list of registrations. Read back from the generated
code, all of them list the components of the schema in the order they were met, or their commands.
-/

namespace EntitySchema.Code

/-- The code behind the name of an item that is neither a structure nor a sum. -/
def Fragment.after? (f : Fragment) (name : String) : Option Code :=
  f.findSome? fun
    | .other _ own after => if own = name then some after else none
    | _ => none

/-- The variants of the sum with a name. -/
def Fragment.variants? (f : Fragment) (name : String) : Option (List (String × Code)) :=
  f.findSome? fun
    | .variants _ own cases => if own = name then some cases else none
    | _ => none

/-- The functions under a header. -/
def Fragment.functions? (f : Fragment) (header : Code) : Option Code :=
  f.findSome? fun
    | .functions own body => if own = header then some body else none
    | _ => none

theorem words_of_notMem {text : String} (h : ' ' ∉ text.toList) : words text = [.word text] := by
  rw [words, Text.divide_of_notMem h, List.map_singleton, String.ofList_toList]

theorem number_injective : Function.Injective number := by
  intro m n h
  rw [number, number, Token.word.injEq, Nat.toString_eq_repr, Nat.toString_eq_repr,
    Nat.repr_inj] at h
  exact UInt32.toNat_inj.mp h

end EntitySchema.Code

namespace EntitySchema.Schema

open Code (Token Declaration Fragment Phrase Balanced matchArms functionBody? firstBraces
  statements)
open Wire (ComponentId CommandIndex Direction)

/-! ## The tables of a schema -/

namespace Sum

/-- The arm that decodes the payload of a component with some content. -/
def decodingArm (sum : Sum) (id : ComponentId) (content : Token) : Code × Code :=
  ([Code.number id],
    Code.okOf (variant "Self" (Entry.variantOf id)
      (Code.call (sum.contentFunction content ("deserialize_" ++ sum.bound))
        [Code.words sum.bound] ++ Code.words "?")))

/-- The arm for a component number that no component has. -/
def unknownArm : Code × Code :=
  (Code.words "id", Code.errOf ([Token.runtime "Error"] ++ Code.words ":: UnknownComponent" ++
    Code.braces (Code.words "id")))

/-- The header of the functions of a sum. -/
def header (sum : Sum) : Code :=
  [Token.runtime ("Any" ++ sum.name)] ++ Code.words "for" ++ Code.words sum.name

end Sum

namespace Dispatch

variable (way : Direction)

/-- The name of a payload of commands. -/
def payloadName : Direction → String
  | .request => "request"
  | .response => "response"

/-- The arm that decodes the payload of a command. -/
def routeArm (r : Route) : Code × Code :=
  (Code.parens ([Code.number r.componentId] ++ Code.words "," ++ [Code.number r.commandIndex]),
    Code.okOf
      (Code.call (Code.words ":: std :: boxed :: Box :: new")
          [Code.call (Code.traitFunction [r.marker] [commandTrait]
              ("deserialize_" ++ payloadName way)) [Code.words (payloadName way)] ++
            Code.words "?"] ++
        Code.words "as :: std :: boxed :: Box < dyn :: std :: any :: Any >"))

/-- The arm for numbers that no command has. -/
def unknownArm : Code × Code :=
  (Code.words "( component_id , command_index )",
    Code.errOf ([Token.runtime "Error"] ++ Code.words ":: UnknownCommand" ++
      Code.braces (Code.words "component_id , command_index") ++ Code.words ","))

/-- The header of the functions of the whole schema. -/
def schemaHeader : Code :=
  [Token.runtime "GeneratedSchema"] ++ Code.words "for" ++ Code.words schemaName

/-- The function that dispatches payloads of commands. -/
def routeFunction : String := "deserialize_command_" ++ payloadName way

/-- The registration of a component. -/
def registration (c : Component) : Code :=
  Code.words "registrar . register_component :: <" ++ [c.path] ++ Code.words "> ( )"

end Dispatch

/-- The position of a component number as an expression. -/
def positionCode (position : Option Nat) : Code :=
  position.elim Code.noneOf fun i => Code.someOf (Code.sizeNumber i)

/-- The commands of a schema with their components, in the order they were met. -/
def Linked.routes (s : Linked) : List Route := s.components.flatMap fun c => c.commands.map c.route

/-- The tables of the root module list the components of the schema in order, and their commands. -/
structure RootTables (s : Linked) (root : Fragment) : Prop where
  /-- The number of components. -/
  count : root.after? Dispatch.countName =
    some (Code.words ": usize =" ++ [Code.sizeNumber s.components.length] ++ Code.words ";")
  /-- The positions. -/
  positions : (root.after? Dispatch.positionName).map (fun c => matchArms (firstBraces c)) =
    some ((s.components.map fun c => ([Code.number c.id], positionCode (s.uniqueIndex c.id))) ++
      [(Code.words "_", Code.noneOf)])
  /-- The variants of the sum of data. -/
  dataVariants : root.variants? Sum.data.name =
    some (s.components.map fun c => (Entry.variantOf c.id, [Code.itemOf c.dataType]))
  /-- The variants of the sum of updates. -/
  updateVariants : root.variants? Sum.updates.name =
    some (s.components.map fun c => (Entry.variantOf c.id, [c.updatePath]))
  /-- How the sum of data is decoded. -/
  dataArms : ((root.functions? Sum.data.header).bind (functionBody? "deserialize")).map matchArms =
    some ((s.components.map fun c => Sum.data.decodingArm c.id (Code.itemOf c.dataType)) ++
      [Sum.unknownArm])
  /-- How the sum of updates is decoded. -/
  updateArms :
    ((root.functions? Sum.updates.header).bind (functionBody? "deserialize")).map matchArms =
      some ((s.components.map fun c => Sum.updates.decodingArm c.id c.updatePath) ++
        [Sum.unknownArm])
  /-- The registrations. -/
  registrations : ((root.functions? Dispatch.schemaHeader).bind
      (functionBody? "register_components")).map statements =
    some (s.components.map Dispatch.registration)
  /-- The dispatch of requests and of responses. -/
  routes : ∀ way, ((root.functions? Dispatch.schemaHeader).bind
      (functionBody? (Dispatch.routeFunction way))).map matchArms =
    some (s.routes.map (Dispatch.routeArm way) ++ [Dispatch.unknownArm])

/-! ## How the tables are written -/

/-- A match with some arms. -/
def matchCode (head : Code) (arms : List (Code × Code)) : Code :=
  head ++ Code.braces (arms.flatMap fun a => arm a.1 a.2)

/-- All patterns and results are phrases. -/
def PhraseArms (arms : List (Code × Code)) : Prop := ∀ a ∈ arms, Phrase a.1 ∧ Phrase a.2

namespace Sum

/-- The arms of the match that decodes a payload. -/
def decodingArms (sum : Sum) (d : Dispatch) : List (Code × Code) :=
  (d.entries.map fun e => sum.decodingArm e.component.id (sum.content e)) ++ [unknownArm]

/-- The match that decodes a payload. -/
def decodingMatch (sum : Sum) (d : Dispatch) : Code :=
  matchCode (Code.words "match" ++ Code.words sum.bound ++ Code.words ". component_id")
    (sum.decodingArms d)

end Sum

namespace Dispatch

variable (d : Dispatch) (way : Direction)

/-- The arms of the match over positions. -/
def positionArms : List (Code × Code) :=
  (d.positions.map fun p => ([Code.number p.1], Code.someOf (Code.sizeNumber p.2))) ++
    [(Code.words "_", Code.noneOf)]

/-- The code of the function over positions up to its body. -/
def positionHead : Code :=
  Code.parens (Code.words "component_id :" ++ [Token.runtime "ComponentId"]) ++ Code.words "->" ++
    Code.optionType (Code.words "usize")

/-- The type of a payload of commands. -/
def payloadType : Direction → String
  | .request => "SchemaCommandRequest"
  | .response => "SchemaCommandResponse"

/-- The arms of the match that dispatches payloads of commands. -/
def routeArms : List (Code × Code) := d.routes.map (routeArm way) ++ [unknownArm]

/-- The match that dispatches payloads of commands. -/
def routeMatch : Code :=
  matchCode (Code.words "match" ++
    Code.parens (Code.words (payloadName way) ++ Code.words ". component_id ," ++
      Code.words (payloadName way) ++ Code.words ". command_index")) (d.routeArms way)

/-- The function that dispatches payloads of commands. -/
def routing : Code :=
  dispatching (routeFunction way) (payloadName way) (payloadType way)
    (d.routes.flatMap fun r => r.arm ("deserialize_" ++ payloadName way) (payloadName way))

/-- The signature of the function that dispatches payloads of commands. -/
def routeSignature : Code :=
  Code.words (routeFunction way) ++
    Code.parens (Code.words (payloadName way) ++ Code.words ": &" ++
      [Token.runtime (payloadType way)] ++ Code.words ",") ++ Code.words "->" ++
    [Token.runtime "Result"] ++ Code.words "< :: std :: boxed :: Box < dyn :: std :: any :: Any >>"

/-- The function that registers all components. -/
def registering : Code :=
  Code.function
    (Code.words "register_components < R :" ++ [Token.runtime "ComponentRegistrar"] ++
      Code.words "> ( registrar : & mut R )")
    (d.entries.flatMap fun e => registration e.component ++ [Token.word ";"])

end Dispatch

namespace Entry

theorem toList_variantOf (id : ComponentId) :
    (variantOf id).toList = "Component".toList ++ (toString id.toNat).toList := by
  rw [← String.toList_append]
  rfl

theorem variantOf_injective : Function.Injective variantOf := by
  intro i j h
  have hchars := congrArg String.toList h
  rw [toList_variantOf, toList_variantOf, List.append_cancel_left_eq, String.toList_inj,
    Nat.toString_eq_repr, Nat.toString_eq_repr, Nat.repr_inj] at hchars
  exact UInt32.toNat_inj.mp hchars

theorem words_variantOf (id : ComponentId) :
    Code.words (variantOf id) = [.word (variantOf id)] := by
  apply Code.words_of_notMem
  rw [toList_variantOf, List.mem_append, not_or]
  refine ⟨by decide, fun hmem => ?_⟩
  cases Code.isDigit_of_mem_toString hmem

theorem phrase_variantOf (id : ComponentId) : Phrase (Code.words (variantOf id)) := by
  rw [words_variantOf]
  exact .token (Code.isPlain_word (toList_variantOf id) (by decide))

end Entry

/-! ## Arms -/

theorem arm_eq (pattern result : Code) :
    arm pattern result = pattern ++ Token.word "=>" :: (result ++ [Token.word ","]) := by
  rw [arm, show Code.words "=>" = [Token.word "=>"] from rfl,
    show Code.words "," = [Token.word ","] from rfl]
  simp

theorem balanced_arm {pattern result : Code} (hpattern : Phrase pattern) (hresult : Phrase result) :
    Balanced (arm pattern result) := by
  rw [arm_eq]
  exact hpattern.balanced.append (.cons (by decide) (by decide)
    (hresult.balanced.append (.token (by decide) (by decide))))

theorem pieces_arm {pattern result : Code} (hpattern : Phrase pattern) (hresult : Phrase result)
    (rest : Code) :
    Code.pieces (.word ",") 0 (arm pattern result ++ rest) =
      (pattern ++ Token.word "=>" :: result) :: Code.pieces (Token.word ",") 0 rest := by
  rw [arm_eq, List.append_assoc, List.cons_append, List.append_assoc, List.singleton_append,
    hpattern.pieces_append (by decide), Code.pieces_other (by decide) (by decide),
    hresult.pieces_divider (by decide)]
  rfl

theorem PhraseArms.balanced {arms : List (Code × Code)} (h : PhraseArms arms) :
    Balanced (arms.flatMap fun a => arm a.1 a.2) :=
  .flatMap fun a ha => balanced_arm (h a ha).1 (h a ha).2

theorem balanced_matchCode {head : Code} {arms : List (Code × Code)} (hhead : Phrase head)
    (harms : PhraseArms arms) : Balanced (matchCode head arms) :=
  hhead.balanced.append (Phrase.braces harms.balanced).balanced

/-- The arms of a match are read as they were written. -/
theorem matchArms_matchCode {head : Code} {arms : List (Code × Code)}
    (hhead : Token.word "\x7b" ∉ head) (harms : PhraseArms arms) :
    matchArms (matchCode head arms) = arms := by
  have hread := Code.firstBraces_append hhead harms.balanced []
  rw [List.append_nil] at hread
  rw [matchArms, matchCode, hread]
  clear hread
  induction arms with
  | nil => rfl
  | cons a rest ih =>
      obtain ⟨hpattern, hresult⟩ := harms a List.mem_cons_self
      rw [List.flatMap_cons, pieces_arm hpattern hresult,
        List.filterMap_cons_some (Code.arm?_eq hpattern hresult),
        ih fun b hb => harms b (List.mem_cons_of_mem a hb)]

theorem PhraseArms.append {arms : List (Code × Code)} (h : PhraseArms arms) {last otherwise : Code}
    (hlast : Phrase last) (hotherwise : Phrase otherwise) :
    PhraseArms (arms ++ [(last, otherwise)]) := by
  intro a ha
  rcases List.mem_append.mp ha with ha | ha
  · exact h a ha
  · rw [List.mem_singleton.mp ha]
    exact ⟨hlast, hotherwise⟩

/-! ## Reading the tables back -/

namespace Dispatch

variable (d : Dispatch)

theorem phraseArms_positionArms : PhraseArms d.positionArms := by
  apply PhraseArms.append
  · intro a ha
    obtain ⟨p, -, rfl⟩ := List.mem_map.mp ha
    exact ⟨.token (Code.isPlain_number p.1),
      Code.phrase_someOf (Phrase.token (Code.isPlain_sizeNumber p.2)).balanced⟩
  · exact Code.phrase_words (by decide)
  · exact Code.phrase_noneOf

theorem after?_position :
    d.fragment.after? positionName =
      some (positionHead ++
        Code.braces (matchCode (Code.words "match component_id") d.positionArms)) := by
  rw [matchCode, positionArms, List.flatMap_append, List.flatMap_map, List.flatMap_singleton]
  rfl

theorem matchArms_position :
    (d.fragment.after? positionName).map (fun c => matchArms (firstBraces c)) =
      some d.positionArms := by
  have hhead : Token.word "\x7b" ∉ positionHead := by decide
  have hbalanced : Balanced (matchCode (Code.words "match component_id") d.positionArms) :=
    balanced_matchCode (Code.phrase_words (by decide)) d.phraseArms_positionArms
  have hread := Code.firstBraces_append hhead hbalanced []
  rw [List.append_nil] at hread
  rw [after?_position, Option.map_some, hread,
    matchArms_matchCode (by decide) d.phraseArms_positionArms]

end Dispatch

/-! ### Sums -/

theorem phrase_variant {sum : String} {id : ComponentId} {content : Code}
    (hsum : Phrase (Code.words sum)) (hcontent : Balanced content) :
    Phrase (Sum.variant sum (Entry.variantOf id) content) :=
  ((hsum.append (Code.phrase_words (by decide))).append (Entry.phrase_variantOf id)).append
    (.parens hcontent)

namespace Sum

variable {sum : Sum} {d : Dispatch}

theorem phrase_bound (hsum : sum = .data ∨ sum = .updates) :
    Phrase (Code.words sum.bound) ∧ Phrase (Code.words ("deserialize_" ++ sum.bound)) := by
  rcases hsum with rfl | rfl <;>
    exact ⟨Code.phrase_words (by decide), Code.phrase_words_append (by decide)⟩

theorem isPlain_content (hsum : sum = .data ∨ sum = .updates) (e : Entry) :
    (sum.content e).isPlain = true := by
  rcases hsum with rfl | rfl <;> exact Code.isPlain_item _ _

theorem phraseArms_decodingArms (hsum : sum = .data ∨ sum = .updates) :
    PhraseArms (sum.decodingArms d) := by
  apply PhraseArms.append
  · intro a ha
    obtain ⟨e, -, rfl⟩ := List.mem_map.mp ha
    have hfunction : Phrase (sum.contentFunction (sum.content e) ("deserialize_" ++ sum.bound)) :=
      Code.phrase_traitFunction (.token (isPlain_content hsum e))
        (.token (Code.isPlain_runtime sum.name)) (phrase_bound hsum).2
    have hcall : Phrase (Code.call (sum.contentFunction (sum.content e)
        ("deserialize_" ++ sum.bound)) [Code.words sum.bound]) :=
      hfunction.call (by simpa using (phrase_bound hsum).1.balanced)
    have hask : Phrase (Code.words "?") := Code.phrase_words (by decide)
    have hself : Phrase (Code.words "Self") := Code.phrase_words (by decide)
    exact ⟨.token (Code.isPlain_number _),
      Code.phrase_okOf (phrase_variant hself (hcall.append hask).balanced).balanced⟩
  · exact Code.phrase_words (by decide)
  · apply Code.phrase_errOf
    have herror : Phrase ([Token.runtime "Error"] ++ Code.words ":: UnknownComponent") :=
      (Phrase.token (Code.isPlain_runtime _)).append (Code.phrase_words (by decide))
    exact (herror.append (.braces (Code.phrase_words (by decide)).balanced)).balanced

theorem balanced_decodingMatch (hsum : sum = .data ∨ sum = .updates) :
    Balanced (sum.decodingMatch d) :=
  balanced_matchCode (((Code.phrase_words (by decide)).append (phrase_bound hsum).1).append
    (Code.phrase_words (by decide))) (phraseArms_decodingArms hsum)

theorem matchArms_decodingMatch (hsum : sum = .data ∨ sum = .updates) :
    matchArms (sum.decodingMatch d) = sum.decodingArms d := by
  apply matchArms_matchCode _ (phraseArms_decodingArms hsum)
  rcases hsum with rfl | rfl <;> decide

theorem functionBody?_numbering {name : String} (hname : "component_id" ≠ name) (rest : Code) :
    functionBody? name (numbering d ++ rest) = functionBody? name rest := by
  have hfunction : Phrase (Code.words "component_id") := Code.phrase_words (by decide)
  have hreceiver : Phrase (Code.words "& self") := Code.phrase_words (by decide)
  have harrow : Phrase (Code.words "->") := Code.phrase_words (by decide)
  have hsignature : Phrase (Code.words "component_id ( & self ) ->" ++
      [Token.runtime "ComponentId"]) :=
    ((hfunction.append (.parens hreceiver.balanced)).append harrow).append
      (.token (Code.isPlain_runtime _))
  have hbody : Balanced (Code.words "match * self" ++ Code.braces (d.entries.flatMap fun e =>
      arm (variant "Self" e.variant (Code.words "_")) e.number)) := by
    have hhead : Phrase (Code.words "match * self") := Code.phrase_words (by decide)
    have hself : Phrase (Code.words "Self") := Code.phrase_words (by decide)
    have hany : Phrase (Code.words "_") := Code.phrase_words (by decide)
    apply hhead.balanced.append
    apply (Phrase.braces (.flatMap fun e _ => ?_)).balanced
    apply balanced_arm (phrase_variant hself hany.balanced)
    exact Code.phrase_traitFunction (.token (Code.isPlain_item _ _))
      (.token (Code.isPlain_runtime _)) (Code.phrase_words (by decide))
  exact (Code.functionBody?_function name rfl hsignature (by decide) hbody rest).trans
    (if_neg hname)

theorem functionBody?_decoding (hsum : sum = .data ∨ sum = .updates) (rest : Code) :
    functionBody? "deserialize" (sum.decoding d ++ rest) = some (sum.decodingMatch d) := by
  have hcode : sum.decoding d = Code.function
      (Code.words "deserialize" ++
        Code.parens (Code.words sum.bound ++ Code.words ": &" ++ [sum.payload]) ++
        Code.words "->" ++ [Token.runtime "Result"] ++ Code.angles (Code.words "Self"))
      (sum.decodingMatch d) := by
    rw [decodingMatch, matchCode, decodingArms, List.flatMap_append, List.flatMap_map,
      List.flatMap_singleton, decoding, decoded, List.flatMap_map]
    rfl
  have hpayload : Balanced (Code.words sum.bound ++ Code.words ": &" ++ [sum.payload]) :=
    (((phrase_bound hsum).1.append (Code.phrase_words (by decide))).append
      (.token (Code.isPlain_runtime _))).balanced
  have hsignature : Phrase (Code.words "deserialize" ++
      Code.parens (Code.words sum.bound ++ Code.words ": &" ++ [sum.payload]) ++
      Code.words "->" ++ [Token.runtime "Result"] ++ Code.angles (Code.words "Self")) :=
    ((((Code.phrase_words (by decide)).append (.parens hpayload)).append
      (Code.phrase_words (by decide))).append (.token (Code.isPlain_runtime _))).append
      (Code.phrase_words (by decide)).angles
  have hbrace : Token.word "\x7b" ∉ Code.words "deserialize" ++
      Code.parens (Code.words sum.bound ++ Code.words ": &" ++ [sum.payload]) ++
      Code.words "->" ++ [Token.runtime "Result"] ++ Code.angles (Code.words "Self") := by
    rcases hsum with rfl | rfl <;> decide
  rw [hcode]
  exact (Code.functionBody?_function "deserialize" rfl hsignature hbrace
    (balanced_decodingMatch hsum) rest).trans (if_pos rfl)

/-- The variants are read from the root module. -/
theorem variants?_eq (hsum : sum = .data ∨ sum = .updates) :
    d.fragment.variants? sum.name = some (d.entries.map fun e => (e.variant, [sum.content e])) := by
  have hvariants : d.fragment.variants? sum.name =
      some ((sum.variants d).map fun p => (p.1, [p.2])) := by
    rcases hsum with rfl | rfl <;> rfl
  rw [hvariants, variants, List.map_map]
  rfl

/-- The arms that decode payloads are read from the root module. -/
theorem matchArms_decoding (hsum : sum = .data ∨ sum = .updates) :
    ((d.fragment.functions? sum.header).bind (functionBody? "deserialize")).map matchArms =
      some (sum.decodingArms d) := by
  have hbody : (d.fragment.functions? sum.header).bind (functionBody? "deserialize") =
      some (sum.decodingMatch d) := by
    rcases hsum with rfl | rfl
    · have hfunctions : d.fragment.functions? data.header =
          some ((Code.words "type Update =" ++ Code.words updates.name) ++ Token.word ";" ::
            (numbering d ++ (data.decoding d ++ (data.encoding d ++ applying d)))) := by
        simp only [← List.append_assoc, ← List.cons_append]
        rfl
      have hstatement : Phrase (Code.words "type Update =" ++ Code.words updates.name) :=
        (Code.phrase_words (by decide)).append (Code.phrase_words (by decide))
      rw [hfunctions, Option.bind_some, Code.functionBody?_statement _ hstatement,
        functionBody?_numbering (by decide), functionBody?_decoding (.inl rfl)]
    · have hfunctions : d.fragment.functions? updates.header =
          some (numbering d ++ (updates.decoding d ++ updates.encoding d)) := by
        rw [← List.append_assoc]
        rfl
      rw [hfunctions, Option.bind_some, functionBody?_numbering (by decide),
        functionBody?_decoding (.inr rfl)]
  rw [hbody, Option.map_some, matchArms_decodingMatch hsum]

end Sum

/-! ### Commands and registrations -/

namespace Dispatch

variable (d : Dispatch) (way : Direction)

theorem isPlain_marker {r : Route} (hr : r ∈ d.routes) : r.marker.isPlain = true := by
  obtain ⟨e, -, hr⟩ := List.mem_flatMap.mp hr
  obtain ⟨m, -, rfl⟩ := List.mem_map.mp hr
  exact Code.isPlain_item _ _

theorem balanced_comma : Balanced (Code.words ",") := .token (by decide) (by decide)

theorem phrase_payloadName : Phrase (Code.words (payloadName way)) := by
  cases way <;> exact Code.phrase_words (by decide)

theorem phraseArms_routeArms : PhraseArms (d.routeArms way) := by
  have hdecode : Phrase (Code.words ("deserialize_" ++ payloadName way)) := by
    cases way <;> exact Code.phrase_words_append (by decide)
  have hboth : Balanced (Code.words "component_id , command_index") := by
    have hwords : Code.words "component_id , command_index" =
        Code.words "component_id" ++ Code.words "," ++ Code.words "command_index" := by cbv
    rw [hwords]
    exact ((Code.phrase_words (by decide)).balanced.append balanced_comma).append
      (Code.phrase_words (by decide)).balanced
  have hunknown : Code.words "( component_id , command_index )" =
      Code.parens (Code.words "component_id , command_index") := by cbv
  rw [routeArms, unknownArm, hunknown]
  apply PhraseArms.append
  · intro a ha
    obtain ⟨r, hr, rfl⟩ := List.mem_map.mp ha
    have hkey : Balanced ([Code.number r.componentId] ++ Code.words "," ++
        [Code.number r.commandIndex]) :=
      ((Phrase.token (Code.isPlain_number _)).balanced.append balanced_comma).append
        (Phrase.token (Code.isPlain_number _)).balanced
    have hfunction := Code.phrase_traitFunction (.token (d.isPlain_marker hr))
      (.token (Code.isPlain_runtime "Command")) hdecode
    have hcall : Phrase (Code.call (Code.traitFunction [r.marker] [commandTrait]
        ("deserialize_" ++ payloadName way)) [Code.words (payloadName way)] ++ Code.words "?") :=
      (hfunction.call (by simpa using (phrase_payloadName way).balanced)).append
        (Code.phrase_words (by decide))
    have hboxed : Phrase (Code.call (Code.words ":: std :: boxed :: Box :: new")
        [Code.call (Code.traitFunction [r.marker] [commandTrait]
          ("deserialize_" ++ payloadName way)) [Code.words (payloadName way)] ++ Code.words "?"]) :=
      (Code.phrase_words (by decide)).call (by simpa using hcall.balanced)
    exact ⟨.parens hkey, Code.phrase_okOf (hboxed.append (Code.phrase_words (by decide))).balanced⟩
  · exact .parens hboth
  · apply Code.phrase_errOf
    have herror : Phrase ([Token.runtime "Error"] ++ Code.words ":: UnknownCommand") :=
      (Phrase.token (Code.isPlain_runtime _)).append (Code.phrase_words (by decide))
    exact (herror.append (.braces hboth)).balanced.append balanced_comma

theorem phrase_routeHead :
    Phrase (Code.words "match" ++
      Code.parens (Code.words (payloadName way) ++ Code.words ". component_id ," ++
        Code.words (payloadName way) ++ Code.words ". command_index")) := by
  have hmember : Phrase (Code.words ". component_id") := Code.phrase_words (by decide)
  have hnumber : Balanced (Code.words ". component_id ,") := hmember.balanced.append balanced_comma
  exact (Code.phrase_words (by decide)).append (.parens
    ((((phrase_payloadName way).balanced.append hnumber).append
      (phrase_payloadName way).balanced).append (Code.phrase_words (by decide)).balanced))

theorem balanced_routeMatch : Balanced (d.routeMatch way) :=
  balanced_matchCode (phrase_routeHead way) (d.phraseArms_routeArms way)

theorem matchArms_routeMatch : matchArms (d.routeMatch way) = d.routeArms way := by
  apply matchArms_matchCode _ (d.phraseArms_routeArms way)
  cases way <;> decide

theorem routing_eq : d.routing way = Code.function (routeSignature way) (d.routeMatch way) := by
  rw [routing, dispatching, routeMatch, matchCode, routeArms, List.flatMap_append, List.flatMap_map,
    List.flatMap_singleton]
  rfl

theorem phrase_routeSignature : Phrase (routeSignature way) := by
  have hfunction : Phrase (Code.words (routeFunction way)) := by
    cases way <;> exact Code.phrase_words_append (by decide)
  have hparameter : Balanced (Code.words (payloadName way) ++ Code.words ": &" ++
      [Token.runtime (payloadType way)] ++ Code.words ",") :=
    (((phrase_payloadName way).append (Code.phrase_words (by decide))).append
      (.token (Code.isPlain_runtime _))).balanced.append balanced_comma
  exact (((hfunction.append (.parens hparameter)).append (Code.phrase_words (by decide))).append
    (.token (Code.isPlain_runtime _))).append (Code.phrase_words (by decide))

theorem functionBody?_routing (name : String) (rest : Code) :
    functionBody? name (d.routing way ++ rest) =
      if routeFunction way = name then some (d.routeMatch way) else functionBody? name rest := by
  have hhead : (routeSignature way).head? = some (.word (routeFunction way)) := by
    cases way <;> rfl
  have hbrace : Token.word "\x7b" ∉ routeSignature way := by cases way <;> decide
  rw [routing_eq, Code.functionBody?_function name hhead (phrase_routeSignature way) hbrace
    (d.balanced_routeMatch way)]

theorem phrase_registration (c : Component) : Phrase (registration c) := by
  have hend : Code.words "> ( )" = Code.words ">" ++ Code.parens [] := by cbv
  rw [registration, hend]
  exact ((Code.phrase_words (by decide)).append (.token (Code.isPlain_item _ _))).append
    ((Code.phrase_words (by decide)).append (.parens .nil))

theorem functionBody?_registering :
    functionBody? "register_components" (d.registering ++ []) =
      some (d.entries.flatMap fun e => registration e.component ++ [Token.word ";"]) := by
  have hsignature : Phrase (Code.words "register_components < R :" ++
      [Token.runtime "ComponentRegistrar"] ++ Code.words "> ( registrar : & mut R )") := by
    have hend : Code.words "> ( registrar : & mut R )" =
        Code.words ">" ++ Code.parens (Code.words "registrar : & mut R") := by cbv
    rw [hend]
    exact ((Code.phrase_words (by decide)).append (.token (Code.isPlain_runtime _))).append
      ((Code.phrase_words (by decide)).append (.parens (Code.phrase_words (by decide)).balanced))
  have hbody : Balanced (d.entries.flatMap fun e => registration e.component ++ [Token.word ";"]) :=
    .flatMap fun e _ =>
      (phrase_registration e.component).balanced.append (.token (by decide) (by decide))
  exact (Code.functionBody?_function "register_components" rfl hsignature (by decide) hbody
    []).trans (if_pos rfl)

theorem statements_registrations :
    statements (d.entries.flatMap fun e => registration e.component ++ [Token.word ";"]) =
      d.entries.map fun e => registration e.component := by
  rw [statements]
  induction d.entries with
  | nil => rfl
  | cons e rest ih =>
      have hne : registration e.component ≠ [] := List.cons_ne_nil _ _
      rw [List.flatMap_cons, List.append_assoc, List.singleton_append,
        (phrase_registration e.component).pieces_divider (by decide),
        List.filter_cons_of_pos (by simpa using hne), ih, List.map_cons]

theorem schemaFunctions_eq :
    d.schemaFunctions =
      (Code.words "const NUMBER_OF_COMPONENTS : usize =" ++ Code.words countName) ++
      Token.word ";" ::
      ((Code.words "type ComponentData =" ++ Code.words Sum.data.name) ++ Token.word ";" ::
      ((Code.words "type ComponentUpdate =" ++ Code.words Sum.updates.name) ++ Token.word ";" ::
      (Code.function
        (Code.words "unique_index" ++
          Code.parens (Code.words "component_id :" ++ [Token.runtime "ComponentId"]) ++
          Code.words "->" ++ Code.optionType (Code.words "usize"))
        (Code.call (Code.words positionName) [Code.words "component_id"]) ++
      (d.routing .request ++ (d.routing .response ++ d.registering))))) := by
  have hdata : Code.words "; type ComponentData =" =
      Token.word ";" :: Code.words "type ComponentData =" := by cbv
  have hupdates : Code.words "; type ComponentUpdate =" =
      Token.word ";" :: Code.words "type ComponentUpdate =" := by cbv
  have hend : Code.words ";" = [Token.word ";"] := by cbv
  have hcall : Code.words "> ( ) ;" = Code.words "> ( )" ++ [Token.word ";"] := by cbv
  rw [schemaFunctions, hdata, hupdates, hend, hcall]
  simp only [List.append_assoc, List.cons_append, List.nil_append, registering, registration]
  rfl

/-- The functions of the schema are read from the root module. -/
theorem functionBody?_schema {name : String} (hname : "unique_index" ≠ name) :
    (d.fragment.functions? schemaHeader).bind (functionBody? name) =
      functionBody? name (d.routing .request ++ (d.routing .response ++ d.registering)) := by
  have hfunctions : d.fragment.functions? schemaHeader = some d.schemaFunctions := rfl
  have hcount : Phrase (Code.words "const NUMBER_OF_COMPONENTS : usize =" ++
      Code.words countName) :=
    (Code.phrase_words (by decide)).append (Code.phrase_words (by decide))
  have hdata : Phrase (Code.words "type ComponentData =" ++ Code.words Sum.data.name) :=
    (Code.phrase_words (by decide)).append (Code.phrase_words (by decide))
  have hupdates : Phrase (Code.words "type ComponentUpdate =" ++ Code.words Sum.updates.name) :=
    (Code.phrase_words (by decide)).append (Code.phrase_words (by decide))
  have hunique : Phrase (Code.words "unique_index" ++
      Code.parens (Code.words "component_id :" ++ [Token.runtime "ComponentId"]) ++
      Code.words "->" ++ Code.optionType (Code.words "usize")) :=
    (((Code.phrase_words (by decide)).append (.parens ((Code.phrase_words (by decide)).append
      (.token (Code.isPlain_runtime _))).balanced)).append (Code.phrase_words (by decide))).append
      ((Code.phrase_words (by decide)).append (Code.phrase_words (by decide)).angles)
  have hposition : Phrase (Code.call (Code.words positionName) [Code.words "component_id"]) :=
    (Code.phrase_words (by decide)).call (by simpa using (Code.phrase_words (by decide)).balanced)
  rw [hfunctions, Option.bind_some, schemaFunctions_eq, Code.functionBody?_statement _ hcount,
    Code.functionBody?_statement _ hdata, Code.functionBody?_statement _ hupdates]
  exact (Code.functionBody?_function name rfl hunique (by decide) hposition.balanced _).trans
    (if_neg hname)

/-- The arms that dispatch payloads of commands are read from the root module. -/
theorem matchArms_routing :
    ((d.fragment.functions? schemaHeader).bind (functionBody? (routeFunction way))).map matchArms =
      some (d.routeArms way) := by
  have hbody : (d.fragment.functions? schemaHeader).bind (functionBody? (routeFunction way)) =
      some (d.routeMatch way) := by
    rw [functionBody?_schema d (by cases way <;> decide), functionBody?_routing]
    cases way with
    | request => exact if_pos rfl
    | response => rw [if_neg (by decide), functionBody?_routing, if_pos rfl]
  rw [hbody, Option.map_some, matchArms_routeMatch]

/-- The registrations are read from the root module. -/
theorem statements_registering :
    ((d.fragment.functions? schemaHeader).bind (functionBody? "register_components")).map
      statements = some (d.entries.map fun e => registration e.component) := by
  rw [functionBody?_schema d (by decide), functionBody?_routing, if_neg (by decide),
    functionBody?_routing, if_neg (by decide), ← List.append_nil d.registering,
    functionBody?_registering, Option.map_some, statements_registrations]

end Dispatch

/-! ## The tables of a linked schema -/

/-- A component number is at the position of the component that has it. -/
theorem Linked.uniqueIndex_eq_some_iff {s : Linked} (h : (s.components.map Component.id).Nodup)
    {id : ComponentId} {i : Nat} :
    s.uniqueIndex id = some i ↔
      ∃ hi : i < s.components.length, (s.components.get ⟨i, hi⟩).id = id := by
  rw [uniqueIndex, List.findIdx?_eq_some_iff_getElem]
  constructor
  · rintro ⟨hi, hid, -⟩
    exact ⟨hi, of_decide_eq_true hid⟩
  · rintro ⟨hi, hid⟩
    refine ⟨hi, decide_eq_true hid, fun j hj hjd => ?_⟩
    have hsame := List.inj_on_of_nodup_map h (List.getElem_mem (hj.trans hi)) (List.getElem_mem hi)
      ((of_decide_eq_true hjd).trans hid.symm)
    exact hj.ne ((List.Nodup.of_map _ h).getElem_inj_iff.mp hsame)

/-- The positions that are listed are those of the components in the schema. -/
theorem Dispatch.map_positions {s : Linked} {entries : List Entry}
    (distinct : (s.components.map Component.id).Nodup)
    (components : entries.map Entry.component = s.components) :
    (Dispatch.mk entries).positions.map
        (fun p => ([Code.number p.1], Code.someOf (Code.sizeNumber p.2))) =
      s.components.map fun c => ([Code.number c.id], positionCode (s.uniqueIndex c.id)) := by
  rw [← components, List.map_map, positions, List.map_map,
    ← List.zipIdx_map_fst 0 entries, List.map_map, List.zipIdx_map_fst]
  refine List.map_congr_left fun p hp => ?_
  have hfound : s.components[p.2]? = some p.1.component := by
    rw [← components, List.getElem?_map, List.mk_mem_zipIdx_iff_getElem?.mp hp, Option.map_some]
  obtain ⟨hi, hget⟩ := List.getElem?_eq_some_iff.mp hfound
  have hposition : s.uniqueIndex p.1.component.id = some p.2 :=
    (Linked.uniqueIndex_eq_some_iff distinct).mpr ⟨hi, congrArg Component.id hget⟩
  simp [hposition, positionCode]

/-- The root module of the components with their data has the tables of the schema. -/
theorem Dispatch.rootTables {s : Linked} {entries : List Entry}
    (distinct : (s.components.map Component.id).Nodup)
    (components : entries.map Entry.component = s.components)
    (data : ∀ e ∈ entries, e.data.qualifiedName = e.component.dataType) :
    RootTables s (Dispatch.mk entries).fragment := by
  have hlength : entries.length = s.components.length := by
    rw [← components, List.length_map]
  have hdata : ∀ e ∈ entries, Sum.data.content e = Code.itemOf e.component.dataType := by
    intro e he
    rw [← data e he]
    rfl
  constructor
  case count =>
    rw [← hlength]
    rfl
  case positions =>
    rw [matchArms_position, positionArms, map_positions distinct components]
  case dataVariants =>
    rw [Sum.variants?_eq (.inl rfl), ← components, List.map_map]
    exact congrArg some (List.map_congr_left fun e he => by simp [hdata e he, Entry.variant])
  case updateVariants =>
    rw [Sum.variants?_eq (.inr rfl), ← components, List.map_map]
    rfl
  case dataArms =>
    have harms : (entries.map fun e => Sum.data.decodingArm e.component.id (Sum.data.content e)) =
        entries.map fun e =>
          Sum.data.decodingArm e.component.id (Code.itemOf e.component.dataType) :=
      List.map_congr_left fun e he => by rw [hdata e he]
    rw [Sum.matchArms_decoding (.inl rfl), Sum.decodingArms, harms, ← components, List.map_map]
    rfl
  case updateArms =>
    rw [Sum.matchArms_decoding (.inr rfl), Sum.decodingArms, ← components, List.map_map]
    rfl
  case registrations =>
    rw [statements_registering, ← components, List.map_map]
    rfl
  case routes =>
    intro way
    rw [matchArms_routing, routeArms, routes, Linked.routes, ← components, List.flatMap_map]

end EntitySchema.Schema
