import MiqroForge.Library.Json

/-! `ToolCallRequest` and `LLMResponse`, without the times of a response. -/

namespace MiqroForge.Providers

open PyText

structure ToolCallRequest where
  id : Text
  name : Text
  arguments : List (Text × Json.Value)
  truncated : Bool := false

structure Usage where
  promptTokens : Nat
  completionTokens : Nat
  totalTokens : Nat
  deriving DecidableEq

structure LLMResponse where
  content : Option Text
  toolCalls : List ToolCallRequest := []
  finishReason : Text := "stop".toList
  usage : Option Usage := none
  reasoningContent : Option Text := none
  errorKind : Option Text := none

/-- A response that reports a failure. -/
def LLMResponse.failed (response : LLMResponse) : Bool := response.finishReason == "error".toList

end MiqroForge.Providers
