import AnswerChain.Python.Text
import AnswerChain.Python.Json
import AnswerChain.Core.Node
import AnswerChain.Core.World
import AnswerChain.Core.CallNode
import AnswerChain.Core.Question
import AnswerChain.Core.Persist
import AnswerChain.Core.Frames
import AnswerChain.Core.Threads
import AnswerChain.Core.Progress
import AnswerChain.Core.Orchestrator
import AnswerChain.Core.Liveness
import AnswerChain.Bot.Chains
import AnswerChain.Bot.Session
import AnswerChain.Bot.AnswerIds
import AnswerChain.Bot.Isolation
