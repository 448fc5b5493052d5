import LiorParisWallet.Async.Contract
import LiorParisWallet.Server.Requests
import LiorParisWallet.Money.Collisions
import LiorParisWallet.Money.Acknowledged
import LiorParisWallet.Money.Interference
import LiorParisWallet.RowLocks.Transactions
import LiorParisWallet.Cache.Freshness
import LiorParisWallet.Outbox.Safety
import LiorParisWallet.Async.Fairness
import LiorParisWallet.Queues.Reprocessing
import LiorParisWallet.Accounts.Privileges
import LiorParisWallet.Accounts.Tokens
import LiorParisWallet.Accounts.Updates
import LiorParisWallet.Accounts.Validation
import LiorParisWallet.Accounts.Pagination
import LiorParisWallet.Outbox.Backlog
import LiorParisWallet.Money.Declined
import LiorParisWallet.Money.ExactTransfer
import LiorParisWallet.Money.OpenTransfers
import LiorParisWallet.Money.Numbers
import LiorParisWallet.Money.Accepted
import LiorParisWallet.Money.Webhooks
import LiorParisWallet.App.Notifications
import LiorParisWallet.Wallets.Tags
import LiorParisWallet.Wallets.Ensured
import LiorParisWallet.Errors.Pointers
import LiorParisWallet.Backend.Deletions
import LiorParisWallet.Backend.Balances
import LiorParisWallet.Backend.Replies
import LiorParisWallet.Accounts.Twins
import LiorParisWallet.Backend.Secrecy
import LiorParisWallet.App.Completeness
import LiorParisWallet.Shared.ExactCurrency
import LiorParisWallet.App.Amounts
