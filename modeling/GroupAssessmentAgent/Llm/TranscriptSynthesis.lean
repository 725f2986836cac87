import GroupAssessmentAgent.Backends
import GroupAssessmentAgent.Llm.CommandParser

/-!
# Answers from transcripts

`synthesize_transcript_answer`: the model sums up the chunks that were retrieved, and no chunks need no model.
-/

namespace GroupAssessmentAgent
open Prog

/-- `SYSTEM_PROMPT`. -/
def synthesisSystemPrompt : Text :=
  cat ["You answer questions about past meetings using ONLY the transcript excerpts\n",
    "given to you below - never information from anywhere else, and never a fact not directly\n",
    "supported by one of the excerpts.\n\n",
    "Cite the source of every factual claim using the format\n",
    "[Meeting Title, YYYY-MM-DD, HH:MM:SS-HH:MM:SS, Speaker Name] exactly as given with each excerpt.\n\n",
    "If the excerpts don't actually answer the question, say so plainly rather than guessing or\n",
    "padding the answer - a short, honest \"the transcripts I found don't cover this\" is a correct\n",
    "answer. Keep the answer to a few sentences."]

def synthesisPrompt (question : Text) (chunks : List TranscriptChunk) : Text :=
  let excerpts := join "\n\n" (chunks.map fun c => cat [c.citation, "\n", c.text])
  cat ["Question: ", question, "\n\nTranscript excerpts:\n\n", excerpts]

def synthesizeTranscriptAnswer (out : Outside) (question : Text) (chunks : List TranscriptChunk) : M Text :=
  if chunks = [] then pure "I didn't find anything in past transcripts that speaks to this."
  else do
    let answer ← generateText out synthesisSystemPrompt (synthesisPrompt question chunks)
    return strip answer

end GroupAssessmentAgent
