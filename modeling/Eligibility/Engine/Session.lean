import Eligibility.Engine.Basic

/-!
# Sessions

A session is a sequence of requests to one engine.  The outcome of a request is the answer of the
operation that it names.
-/

namespace Eligibility

/-- What an engine can be asked to do. -/
inductive Request
  | parse (rule : String)
  | compile (name rule : String)
  | check (rule : String) (record : Record)
  | evaluate (formula : Formula) (record : Record)
  | evaluateJson (formula record : String)
  | combine (rules : List String)
  | load (json : String)
  | clear

/-- What a request comes to. -/
inductive Outcome
  | formula (formula : Formula)
  | rule (rule : NamedRule)
  | verdict (value : Bool)
  | cleared
deriving DecidableEq

namespace Engine

/-- Answers a request. -/
def perform (e : Engine) : Request → Except Fault Outcome × Engine
  | .parse rule => let done := e.parse rule; (done.1.map .formula, done.2)
  | .compile name rule => let done := e.compile name rule; (done.1.map .rule, done.2)
  | .check rule record => let done := e.check rule record; (done.1.map .verdict, done.2)
  | .evaluate formula record => ((e.evaluate formula record).map .verdict, e)
  | .evaluateJson formula record => ((e.evaluateJson formula record).map .verdict, e)
  | .combine rules => let done := e.combine rules; (done.1.map .formula, done.2)
  | .load json => ((NamedRule.ofJson json).map .rule, e)
  | .clear => (.ok .cleared, e.clear)

/-- Answers requests in order. -/
def performAll (e : Engine) : List Request → List (Except Fault Outcome) × Engine
  | [] => ([], e)
  | request :: requests =>
    let done := e.perform request
    let further := done.2.performAll requests
    (done.1 :: further.1, further.2)

end Engine
end Eligibility
