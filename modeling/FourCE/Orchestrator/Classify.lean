import FourCE.Orchestrator.Record
import FourCE.Python.Words

/-!
# Classification

`_classify`: small talk is recognised first and answered without the chain, so a message taken for
it is neither verified nor approved.  The test looks at the whole text, at the first word and for
questions about the assistant anywhere in the text; the last two let work through.
-/

namespace FourCE.Orchestrator

open FourCE.Python

def CODE_SIGNALS : List PyStr :=
  [py "code", py "script", py "program", py "function", py "debug", py "compile", py "refactor",
    py "python", py "javascript", py "sql", py "algorithm", py "unit test", py "traceback"]

def DOCUMENT_SIGNALS : List PyStr :=
  [py "report", py "inspection", py "sop", py "manual", py "approval note", py "summarise",
    py "summarize", py "findings", py "drawing", py "correspondence", py "note sheet",
    py "tender", py "specification", py "procedure", py "audit"]

def CALC_SIGNALS : List PyStr :=
  [py "calculate", py "compute", py "thickness", py "pressure", py "flow rate", py "tonnage"]

def GREETINGS : List PyStr :=
  [py "hi", py "hello", py "hey", py "yo", py "hiya", py "howdy", py "hola", py "namaste",
    py "morning", py "afternoon", py "evening", py "greetings",
    py "good morning", py "good afternoon", py "good evening", py "good day"]

def COURTESIES : List PyStr :=
  [py "thanks", py "thank you", py "thankyou", py "ta", py "cheers", py "ok", py "okay", py "k",
    py "cool", py "nice", py "great", py "perfect", py "got it", py "understood", py "sure",
    py "yes", py "no", py "bye", py "goodbye", py "see you", py "good night", py "test",
    py "testing", py "and again", py "again", py "once more", py "go on", py "carry on",
    py "continue", py "next", py "same again", py "one more", py "and", py "so", py "right",
    py "fine", py "alright", py "indeed", py "exactly", py "correct", py "wonderful",
    py "excellent", py "brilliant", py "lovely", py "hmm", py "hm", py "ah", py "oh", py "i see",
    py "makes sense", py "noted"]

def META_QUESTIONS : List PyStr :=
  [py "who are you", py "what are you", py "what can you do", py "what do you do",
    py "how do you work", py "what is 4ce", py "who made you", py "introduce yourself",
    py "what models do you", py "which models do you", py "are you online", py "are you there"]

variable [Casing]

/-- `re.sub(r"[^a-z0-9\s]", " ", …)`, on one character. -/
def plainChar (c : CodePoint) : CodePoint :=
  if 97 ≤ c.val ∧ c.val ≤ 122 ∨ 48 ≤ c.val ∧ c.val ≤ 57 ∨ isWhite c then c else 32

/-- The words `_conversational` looks at, one blank between any two. -/
def plainText (prompt : PyStr) : PyStr :=
  join (py " ") (words ((Casing.lower prompt).map plainChar))

/-- `_conversational`. -/
def conversational (prompt : PyStr) : Option PyStr :=
  let text := plainText prompt
  if text.isEmpty then none
  else
    let ws := words text
    if 8 < ws.length then none
    else if GREETINGS.contains text || COURTESIES.contains text then some text
    else if GREETINGS.contains (ws.headD []) && ws.length ≤ 5 then some (ws.headD [])
    else META_QUESTIONS.find? fun phrase ↦ contains phrase text

/-- `[w for w in signals if w in lowered]`. -/
def hits (signals : List PyStr) (lowered : PyStr) : List PyStr :=
  signals.filter fun w ↦ contains w lowered

/-- `_classify`. -/
def classify (prompt : PyStr) (hasImage : Bool) : TaskType × List PyStr :=
  let lowered := Casing.lower prompt
  if hasImage then (.vision, [py "image attached"])
  else match conversational prompt with
    | some smallTalk =>
      if smallTalk.isEmpty then classifyWork lowered
      else (.chat, [py "conversational: '" ++ smallTalk ++ py "'"])
    | none => classifyWork lowered
where
  classifyWork (lowered : PyStr) : TaskType × List PyStr :=
    if !(hits CODE_SIGNALS lowered).isEmpty then (.code, (hits CODE_SIGNALS lowered).take 3)
    else if !(hits DOCUMENT_SIGNALS lowered).isEmpty then
      (.document, (hits DOCUMENT_SIGNALS lowered).take 3)
    else if !(hits CALC_SIGNALS lowered).isEmpty then
      (.analysis, (hits CALC_SIGNALS lowered).take 3)
    else (.analysis, [])

end FourCE.Orchestrator
