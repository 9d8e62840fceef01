import Datasole.Common.Json

/-!
# Requests and responses of remote calls

`shared/types/rpc.ts`, as the JSON objects that go over the wire. A field that is `undefined` is
`none`, and is not written.
-/

namespace Datasole

structure RpcRequest where
  method : String
  params : Option Json
  correlationId : Option Json
deriving DecidableEq

structure RpcError where
  code : ℚ
  message : String
  data : Option Json := none
deriving DecidableEq

structure RpcResponse where
  correlationId : Option Json
  result : Option Json := none
  error : Option RpcError := none
deriving DecidableEq

/-- A member of an object, if its value is defined. -/
def field (name : String) (value : Option Json) : List (String × Json) :=
  (value.map fun value => (name, value)).toList

def RpcError.toJson (error : RpcError) : Json :=
  .obj (field "code" (some (.num error.code)) ++ field "data" error.data ++
    field "message" (some (.str error.message)))

def RpcResponse.toJson (response : RpcResponse) : Json :=
  .obj (field "correlationId" response.correlationId ++ field "error" (response.error.map (·.toJson)) ++
    field "result" response.result)

/-- What is read off a parsed request whose `method` is a string. -/
def RpcRequest.ofJson (value : Json) : Option RpcRequest :=
  match value.property "method" with
  | some (.str method) =>
    some { method, params := value.property "params", correlationId := value.property "correlationId" }
  | _ => none

/-- A field is there if it has a value. -/
theorem lookup_field (name : String) (value : Option Json) (name' : String) :
    (field name value).lookup name' = if name' = name then value else none := by
  cases value with
  | none => simp [field]
  | some value =>
    by_cases h : name' = name
    · simp [field, h]
    · simp [field, List.lookup_cons, beq_false_of_ne h, h]

theorem RpcError.property_message (error : RpcError) :
    error.toJson.property "message" = some (.str error.message) := by
  simp [RpcError.toJson, Json.property, List.lookup_append, lookup_field]

theorem RpcResponse.property_error (response : RpcResponse) :
    response.toJson.property "error" = response.error.map (·.toJson) := by
  simp [RpcResponse.toJson, Json.property, List.lookup_append, lookup_field]

theorem RpcResponse.property_result (response : RpcResponse) :
    response.toJson.property "result" = response.result := by
  simp [RpcResponse.toJson, Json.property, List.lookup_append, lookup_field]

end Datasole
