import OnlineCaro.Lib.Run
import OnlineCaro.Lib.Tenure
import OnlineCaro.Lib.Decimal
import OnlineCaro.Lib.TextFile
import OnlineCaro.Lib.Serial
import OnlineCaro.Lib.Interference
import OnlineCaro.Server.Stale
import OnlineCaro.Server.NameBuffer
import OnlineCaro.Server.Failures
import OnlineCaro.Server.Isolation
import OnlineCaro.Server.Buffers
import OnlineCaro.Server.Segmentation
import OnlineCaro.Server.Receive
import OnlineCaro.Server.Thread
import OnlineCaro.Server.Validator
import OnlineCaro.Server.Directory
import OnlineCaro.Server.Groups
import OnlineCaro.Server.Startup
import OnlineCaro.Server.Ownership
import OnlineCaro.Database.LogIn
import OnlineCaro.Database.Play
import OnlineCaro.Database.Connection
