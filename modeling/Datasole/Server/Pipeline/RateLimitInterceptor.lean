import Datasole.Server.Protocol.ProtocolAdapter
import Datasole.Server.RateLimit.DefaultLimiter

/-!
# The rate-limit interceptor

`server/pipeline/rate-limit.interceptor.ts`. A message that the limiter refuses is answered by an
ERROR frame with the correlation id that the message carries; one that it allows goes on to the
router. What `consume` gives for a key and a rule is the parameter `limiter`.
-/

namespace Datasole

structure RateLimitConfig where
  defaultRule : Option RateLimitRule := none
  /-- `config.rules[method]`, by the value that a request has as its method. -/
  rules : Option (Json → Option RateLimitRule) := none
  keyExtractor : Option ((connectionId : String) → (method : Option Json) → Except String String) := none

def defaultRateLimitRule : RateLimitRule where
  windowMs := 60000
  maxRequests := 100

variable {V : Type*} (pako : Pako) (text : JsonText V)

/-- The method of an RPC_REQ; errors on the way to it are ignored. -/
def requestMethod (raw : Bytes) : Option Json :=
  match decodeMessage pako.inflate raw with
  | .error _ => none
  | .ok frame =>
    if frame.opcode = .rpcReq then (text.parse frame.payload).bind (·.property "method") else none

/-- An exception of the extractor goes to the caller, and the message is dropped. -/
def getRateLimitKey (connectionId : String) (raw : Bytes) (config : RateLimitConfig) :
    Except String String :=
  match config.keyExtractor with
  | some extract => extract connectionId (requestMethod pako text raw)
  | none => .ok (connectionId ++ ":frame")

def getRateLimitRule (raw : Bytes) (config : RateLimitConfig) : RateLimitRule :=
  let own := config.rules.bind fun rules =>
    ((requestMethod pako text raw).filter Json.truthy).bind rules
  own.getD (config.defaultRule.getD defaultRateLimitRule)

/-- `{ message: 'Rate limit exceeded', retryAfter: result.retryAfter }`. -/
def rateLimitExceeded (result : RateLimitResult) : Json :=
  .obj (field "message" (some (.str "Rate limit exceeded")) ++
    field "retryAfter" (result.retryAfter.map fun ms => .num ms))

/-- The ERROR frame for a refused message; the connection may be gone. -/
def sendRateLimitError (conn : Option Connection) (raw : Bytes)
    (result : RateLimitResult) : List Bytes :=
  match conn with
  | none => []
  | some conn =>
    let correlationId := match decodeMessage pako.inflate raw with
      | .ok frame => frame.correlationId
      | .error _ => 0
    match (text.encode (rateLimitExceeded result)).bind fun payload =>
        pako.pack ⟨.error, correlationId, payload⟩ with
    | .ok frameData => conn.send frameData
    | .error _ => []

/-- The interceptor: what goes out on the connection, where `next` is what the rest of the pipeline
sends. -/
def rateLimitInterceptor (config : RateLimitConfig)
    (limiter : String → RateLimitRule → RateLimitResult)
    (conn : Option Connection) (connectionId : String) (raw : Bytes) (next : List Bytes) : List Bytes :=
  let rule := getRateLimitRule pako text raw config
  match getRateLimitKey pako text connectionId raw config with
  | .error _ => []
  | .ok key =>
    let result := limiter key rule
    if result.allowed then next else sendRateLimitError pako text conn raw result

/-- The limiter lets a message pass. -/
def RateLimitConfig.Allows (config : RateLimitConfig)
    (limiter : String → RateLimitRule → RateLimitResult) (connectionId : String) (raw : Bytes) : Prop :=
  ∃ key, getRateLimitKey pako text connectionId raw config = .ok key ∧
    (limiter key (getRateLimitRule pako text raw config)).allowed = true

variable {pako text} {config : RateLimitConfig} {limiter : String → RateLimitRule → RateLimitResult}
  {conn : Option Connection} {connectionId : String} {raw : Bytes} {next : List Bytes}

/-- Where the limiter allows the frame the interceptor does nothing but go on. -/
theorem rateLimitInterceptor_of_allows (h : config.Allows pako text limiter connectionId raw) :
    rateLimitInterceptor pako text config limiter conn connectionId raw next = next := by
  obtain ⟨key, hkey, hallowed⟩ := h
  simp only [rateLimitInterceptor, hkey, hallowed, if_true]

/-- What goes out for a message that is not allowed is an ERROR frame with the message's id. -/
theorem rateLimitInterceptor_of_not_allows (h : ¬ config.Allows pako text limiter connectionId raw)
    {frame : Frame} (hframe : decodeMessage pako.inflate raw = .ok frame) {message : Bytes}
    (hsent : message ∈ rateLimitInterceptor pako text config limiter conn connectionId raw next) :
    ∃ payload, payload.length ≤ maxFramePayload ∧
      message = pako.compressLarge (Frame.bytes ⟨.error, frame.correlationId, payload⟩) := by
  simp only [rateLimitInterceptor] at hsent
  cases hkey : getRateLimitKey pako text connectionId raw config with
  | error e => rw [hkey] at hsent; cases hsent
  | ok key =>
    have hrefused : ¬ (limiter key (getRateLimitRule pako text raw config)).allowed = true :=
      fun hallowed => h ⟨key, hkey, hallowed⟩
    simp only [hkey, if_neg hrefused] at hsent
    cases conn with
    | none => cases hsent
    | some conn =>
      -- the same as `sendToConnection`, which also sends nothing after an exception
      have hsame : sendRateLimitError pako text (some conn) raw
          (limiter key (getRateLimitRule pako text raw config)) =
            sendToConnection pako conn .error frame.correlationId (text.encode (rateLimitExceeded
              (limiter key (getRateLimitRule pako text raw config)))) := by
        simp only [sendRateLimitError, hframe]
        rfl
      rw [hsame] at hsent
      obtain ⟨payload, -, hlen, hmessage⟩ := mem_sendToConnection hsent
      exact ⟨payload, hlen, hmessage⟩

end Datasole
